import IronDefer.Api.Engine
import IronDefer.Api.Privacy
import IronDefer.Api.Regions
import IronDefer.Api.Sightings
import IronDefer.Api.Transitions
import IronDefer.Infrastructure.RoundTrip

/-!
# What is asked for is what is run

A submission names a queue, a kind and a payload; a typed one, a value that is serialized. What a
worker claims later has come through the store, and so has what a lookup finds. Every task in the
store comes from one submission, and keeps what that has asked for: the handler that a dispatch runs
is the one registered for the kind, on the payload that was submitted, which it reads back as the
value that was submitted.

## Main definitions

* `Wanted`, `Submission.Asks`: what never changes about a task, and that a submission asks for it
* `TaskCode`, `getReply`: a type whose values can be submitted, and the typed lookup
* `Submission.Stores`: a commit has inserted the task of a submission
* `Submission.Handled`, `Submission.Got`: what a submission asks for is what is handled, or found

## Main results

* `Engine.submit_built`: what an entry point builds is what the submission asks for
* `Runs.exists_brings`, `Runs.brings_of_shown`: every task in the store, and in an answer, comes
  from a submission
* `executes_claimed`: a dispatch runs the handler of the kind on what has been claimed
* `submission_delivered`: **what is asked for is what is run, and what is found**
-/

namespace IronDefer

open RowStore

/-! ## What a submission asks for -/

namespace Submission

/-- The value of a typed submission. -/
def task? : Submission → Option TypedTask
  | enqueue _ task | enqueueAt _ task _ | enqueueWithRegion _ task _ | enqueueIdempotent _ task _
  | enqueueIdempotentWithRegion _ task _ _ | enqueueInTx _ task _
  | enqueueInTxIdempotent _ task _ _ => some task
  | enqueueRaw .. | enqueueRawIdempotent .. => none

def queue : Submission → String
  | enqueue queue _ | enqueueAt queue _ _ | enqueueWithRegion queue _ _
  | enqueueIdempotent queue _ _ | enqueueIdempotentWithRegion queue _ _ _ | enqueueInTx queue _ _
  | enqueueInTxIdempotent queue _ _ _ => queue
  | enqueueRaw queue .. | enqueueRawIdempotent queue .. => queue

def kind : Submission → String
  | enqueue _ task | enqueueAt _ task _ | enqueueWithRegion _ task _ | enqueueIdempotent _ task _
  | enqueueIdempotentWithRegion _ task _ _ | enqueueInTx _ task _
  | enqueueInTxIdempotent _ task _ _ => task.kind
  | enqueueRaw _ kind .. | enqueueRawIdempotent _ kind .. => kind

/-- The payload, where the value of a typed submission is serialized. -/
def payload : Submission → Except String Json
  | enqueue _ task | enqueueAt _ task _ | enqueueWithRegion _ task _ | enqueueIdempotent _ task _
  | enqueueIdempotentWithRegion _ task _ _ | enqueueInTx _ task _
  | enqueueInTxIdempotent _ task _ _ => task.payload
  | enqueueRaw _ _ payload .. | enqueueRawIdempotent _ _ payload .. => .ok payload

def priority : Submission → Option Int
  | enqueueRaw _ _ _ _ priority .. | enqueueRawIdempotent _ _ _ _ priority .. => priority
  | _ => none

def maxAttempts : Submission → Option I32
  | enqueueRaw _ _ _ _ _ maxAttempts .. | enqueueRawIdempotent _ _ _ _ _ maxAttempts .. =>
    maxAttempts
  | _ => none

def idempotencyKey : Submission → Option String
  | enqueueIdempotent _ _ key | enqueueIdempotentWithRegion _ _ key _
  | enqueueInTxIdempotent _ _ key _ => some key
  | enqueueRawIdempotent _ _ _ _ _ _ key .. => some key
  | _ => none

def traceId : Submission → Option String
  | enqueueRaw _ _ _ _ _ _ traceId _ | enqueueRawIdempotent _ _ _ _ _ _ _ traceId _ => traceId
  | _ => none

end Submission

/-- What never changes about a task. -/
structure Wanted where
  queue : String
  kind : String
  payload : Json
  priority : Int
  maxAttempts : I32
  traceId : Option String
  region : Option String
  deriving DecidableEq

def TaskRow.wanted (r : TaskRow) : Wanted :=
  ⟨r.queue, r.kind, r.payload, r.priority, r.maxAttempts, r.traceId, r.region⟩

def TaskRecord.wanted (task : TaskRecord) : Wanted :=
  ⟨task.queue.asStr, task.kind.asStr, task.payload, task.priority.get, task.maxAttempts.get,
    task.traceId, task.region⟩

/-- What a submission wants, with the defaults for what it leaves out. -/
def Submission.wanted (s : Submission) (payload : Json) : Wanted :=
  ⟨s.queue, s.kind, payload, s.priority.getD Priority.default.get,
    s.maxAttempts.getD MaxAttempts.default.get, s.traceId, s.region⟩

/-- A task is what a submission asks for; its key is the submission's, or has been cleared. -/
structure Submission.Asks (s : Submission) (w : Wanted) (key : Option String) : Prop where
  payload : s.payload = .ok w.payload
  wanted : w = s.wanted w.payload
  key : ∀ k ∈ key, s.idempotencyKey = some k

/-- A record is built under an id and a key, for what is wanted. -/
structure TaskRecord.BuiltFor (record : TaskRecord) (id : TaskId) (w : Wanted)
    (key : Option String) : Prop where
  id : record.id = id
  wanted : record.wanted = w
  key : record.idempotencyKey = key

section Asks

variable {id : TaskId} {now : DateTime} {name : QueueName} {queue kind : String} {payload : Json}
  {scheduledAt : Option DateTime} {priority : Option Int} {maxAttempts : Option I32} {key : String}
  {retention : Duration} {traceId region : Option String} {record : TaskRecord}

theorem asStr_of_requestedKind {message : String} {k : TaskKind}
    (h : requestedKind kind message = .ok k) : k.asStr = kind := by
  unfold requestedKind TaskKind.tryFrom at h
  split at h
  · cases h
    rfl
  · cases h

theorem get_of_requestedMaxAttempts {max : MaxAttempts}
    (h : requestedMaxAttempts maxAttempts = .ok max) :
    max.get = maxAttempts.getD MaxAttempts.default.get := by
  cases maxAttempts with
  | none =>
    cases h
    rfl
  | some v =>
    rw [requestedMaxAttempts] at h
    unfold MaxAttempts.new at h
    split at h
    · cases h
    · cases h
      rfl

theorem asStr_of_requestedQueue (h : requestedQueue queue = .ok name) : name.asStr = queue := by
  unfold requestedQueue QueueName.tryFrom at h
  split at h
  · cases h
    rfl
  · cases h

/-- What the scheduler builds of a request is what was requested. -/
theorem built_of_raw (h : IronDefer.enqueueRaw id now name kind payload scheduledAt priority
    maxAttempts traceId region = .ok record) :
    record.BuiltFor id ⟨name.asStr, kind, payload, priority.getD Priority.default.get,
      maxAttempts.getD MaxAttempts.default.get, traceId, region⟩ none := by
  obtain ⟨_, -, h⟩ := exists_of_bind_ok h
  obtain ⟨max, hmax, h⟩ := exists_of_bind_ok h
  obtain ⟨k, hk, h⟩ := exists_of_bind_ok h
  cases h
  rw [← asStr_of_requestedKind hk, ← get_of_requestedMaxAttempts hmax]
  exact ⟨rfl, rfl, rfl⟩

theorem built_of_rawIdempotent (h : IronDefer.enqueueRawIdempotent id now name kind payload
    scheduledAt priority maxAttempts key retention traceId region = .ok record) :
    record.BuiltFor id ⟨name.asStr, kind, payload, priority.getD Priority.default.get,
      maxAttempts.getD MaxAttempts.default.get, traceId, region⟩ (some key) := by
  obtain ⟨_, -, h⟩ := exists_of_bind_ok h
  obtain ⟨_, -, h⟩ := exists_of_bind_ok h
  obtain ⟨max, hmax, h⟩ := exists_of_bind_ok h
  obtain ⟨k, hk, h⟩ := exists_of_bind_ok h
  cases h
  rw [← asStr_of_requestedKind hk, ← get_of_requestedMaxAttempts hmax]
  exact ⟨rfl, rfl, rfl⟩

theorem built_of_inTx
    (h : IronDefer.enqueueInTx id now name kind payload scheduledAt region = .ok record) :
    record.BuiltFor id ⟨name.asStr, kind, payload, Priority.default.get, MaxAttempts.default.get,
      none, region⟩ none := by
  obtain ⟨_, -, h⟩ := exists_of_bind_ok h
  obtain ⟨k, hk, h⟩ := exists_of_bind_ok h
  cases h
  rw [← asStr_of_requestedKind hk]
  exact ⟨rfl, rfl, rfl⟩

theorem built_of_inTxIdempotent (h : IronDefer.enqueueInTxIdempotent id now name kind payload
    scheduledAt key retention region = .ok record) :
    record.BuiltFor id ⟨name.asStr, kind, payload, Priority.default.get, MaxAttempts.default.get,
      none, region⟩ (some key) := by
  obtain ⟨_, -, h⟩ := exists_of_bind_ok h
  obtain ⟨_, -, h⟩ := exists_of_bind_ok h
  obtain ⟨k, hk, h⟩ := exists_of_bind_ok h
  cases h
  rw [← asStr_of_requestedKind hk]
  exact ⟨rfl, rfl, rfl⟩

/-- A value that has been serialized. -/
theorem payload_of_serialize {task : TypedTask} (h : task.serialize = .ok payload) :
    task.payload = .ok payload := by
  unfold TypedTask.serialize at h
  cases hp : task.payload with
  | ok j =>
    rw [hp] at h
    cases h
    rfl
  | error e =>
    rw [hp] at h
    cases h

/-- What most entry points end with, and what they have made of their arguments by then. -/
theorem Engine.exists_prepared {e : Engine} {hint : String} {task : TypedTask}
    {submit : QueueName → Json → Except RepoError TaskRecord}
    (h : (do
      e.requireHandler task.kind hint
      let queueName ← requestedQueue queue
      let payload ← task.serialize
      submit queueName payload) = .ok record) :
    ∃ name payload, name.asStr = queue ∧ task.payload = .ok payload ∧
      submit name payload = .ok record := by
  obtain ⟨_, -, h⟩ := exists_of_bind_ok h
  obtain ⟨name, hname, h⟩ := exists_of_bind_ok h
  obtain ⟨payload, hpayload, h⟩ := exists_of_bind_ok h
  exact ⟨name, payload, asStr_of_requestedQueue hname, payload_of_serialize hpayload, h⟩

theorem Engine.built_of_raw {e : Engine}
    (h : e.enqueueRaw id now queue kind payload scheduledAt priority maxAttempts traceId region =
      .ok record) :
    record.BuiltFor id ⟨queue, kind, payload, priority.getD Priority.default.get,
      maxAttempts.getD MaxAttempts.default.get, traceId, region⟩ none := by
  obtain ⟨_, -, h⟩ := exists_of_bind_ok h
  obtain ⟨_, -, h⟩ := exists_of_bind_ok h
  obtain ⟨name, hname, h⟩ := exists_of_bind_ok h
  exact asStr_of_requestedQueue hname ▸ IronDefer.built_of_raw h

theorem Engine.built_of_inner {e : Engine} {task : TypedTask}
    (h : e.enqueueInner id now queue task scheduledAt = .ok record) :
    ∃ payload, task.payload = .ok payload ∧
      record.BuiltFor id ((Submission.enqueue queue task).wanted payload) none := by
  obtain ⟨_, -, h⟩ := exists_of_bind_ok h
  obtain ⟨name, hname, h⟩ := exists_of_bind_ok h
  obtain ⟨_, -, h⟩ := exists_of_bind_ok h
  obtain ⟨payload, hpayload, h⟩ := exists_of_bind_ok h
  have hbuilt := IronDefer.built_of_raw h
  rw [asStr_of_requestedQueue hname] at hbuilt
  exact ⟨payload, payload_of_serialize hpayload, hbuilt⟩

end Asks

/-- **What an entry point builds is what the submission asks for**, under the id it is given. -/
theorem Engine.submit_built {e : Engine} {id : TaskId} {now : DateTime} {s : Submission}
    {record : TaskRecord} (h : e.submit id now s = .ok record) : ∃ payload,
      s.payload = .ok payload ∧ record.BuiltFor id (s.wanted payload) s.idempotencyKey := by
  cases s with
  | enqueue | enqueueAt => exact built_of_inner h
  | enqueueWithRegion =>
    obtain ⟨_, -, h⟩ := exists_of_bind_ok h
    obtain ⟨_, -, h⟩ := exists_of_bind_ok h
    obtain ⟨payload, hpayload, h⟩ := exists_of_bind_ok h
    exact ⟨payload, payload_of_serialize hpayload, Engine.built_of_raw h⟩
  | enqueueIdempotent =>
    obtain ⟨_, -, h⟩ := exists_of_bind_ok h
    obtain ⟨name, payload, rfl, hpayload, h⟩ := exists_prepared h
    exact ⟨payload, hpayload, built_of_rawIdempotent h⟩
  | enqueueIdempotentWithRegion =>
    obtain ⟨_, -, h⟩ := exists_of_bind_ok h
    obtain ⟨_, -, h⟩ := exists_of_bind_ok h
    obtain ⟨name, payload, rfl, hpayload, h⟩ := exists_prepared h
    exact ⟨payload, hpayload, built_of_rawIdempotent h⟩
  | enqueueInTx =>
    obtain ⟨_, -, h⟩ := exists_of_bind_ok h
    obtain ⟨name, payload, rfl, hpayload, h⟩ := exists_prepared h
    exact ⟨payload, hpayload, built_of_inTx h⟩
  | enqueueInTxIdempotent =>
    obtain ⟨_, -, h⟩ := exists_of_bind_ok h
    obtain ⟨_, -, h⟩ := exists_of_bind_ok h
    obtain ⟨name, payload, rfl, hpayload, h⟩ := exists_prepared h
    exact ⟨payload, hpayload, built_of_inTxIdempotent h⟩
  | enqueueRaw => exact ⟨_, rfl, Engine.built_of_raw h⟩
  | enqueueRawIdempotent =>
    obtain ⟨_, -, h⟩ := exists_of_bind_ok h
    obtain ⟨_, -, h⟩ := exists_of_bind_ok h
    obtain ⟨_, -, h⟩ := exists_of_bind_ok h
    obtain ⟨name, hname, h⟩ := exists_of_bind_ok h
    have hbuilt := built_of_rawIdempotent h
    rw [asStr_of_requestedQueue hname] at hbuilt
    exact ⟨_, rfl, hbuilt⟩

theorem Engine.submit_id {e : Engine} {id : TaskId} {now : DateTime} {s : Submission}
    {record : TaskRecord} (h : e.submit id now s = .ok record) : record.id = id := by
  obtain ⟨_, -, hbuilt⟩ := submit_built h
  exact hbuilt.id

theorem Engine.submit_asks {e : Engine} {id : TaskId} {now : DateTime} {s : Submission}
    {record : TaskRecord} (h : e.submit id now s = .ok record) :
    s.Asks record.wanted record.idempotencyKey := by
  obtain ⟨payload, hpayload, hbuilt⟩ := submit_built h
  rw [hbuilt.wanted, hbuilt.key]
  exact ⟨hpayload, rfl, fun _ hk => hk⟩

/-! ## Typed tasks -/

/-- A task type whose values can be submitted. -/
structure TaskCode (T : Type) extends TaskType T where
  typeName : String
  serialize : T → Except String Json

/-- A value, as it is submitted. -/
def TaskCode.value {T : Type} (t : TaskCode T) (a : T) : TypedTask :=
  ⟨t.kind, t.typeName, t.serialize a⟩

/-- What is serialized is read back. -/
def TaskCode.RoundTrips {T : Type} (t : TaskCode T) : Prop :=
  ∀ a payload, t.serialize a = .ok payload → t.deserialize payload = .ok a

/-- `get`, by what the lookup returns. -/
def getReply {T : Type} (t : TaskType T) (id : TaskId) :
    Except RepoError (Option TaskRecord) → Except RepoError T
  | .ok (some record) =>
    if record.kind.asStr ≠ t.kind then
      .error (invalidPayload ("task kind mismatch: expected " ++ debugText t.kind ++ ", got " ++
        debugText record.kind.asStr))
    else (t.deserialize record.payload).mapError fun message =>
      .invalidPayload (.deserialization message)
  | .ok none => .error (.notFound id)
  | .error e => .error e

/-! ## Where tasks come from -/

/-- A call inserts only tasks that entry points of engines have built for it. -/
def Call.Issued (c : Call) : Prop :=
  ∀ task ∈ c.op.tasks, ∃ (e : Engine) (id : TaskId) (now : DateTime) (s : Submission),
    e.submit id now s = .ok task ∧ s.Saves task c.op

/-- The commit inserts a task that an entry point of an engine has built for the submission. -/
inductive Submission.Stores (s : Submission) (id : TaskId) : Outcome → Prop
  | intro {sid call b cs ls reply e now task lastError} : Engine.submit e id now s = .ok task →
      s.Saves task call.op → ⟨none, insertedRow b task lastError⟩ ∈ cs →
        Stores s id (.committed sid call b cs ls reply)

/-- One of the outputs stores the task, which is what the submission asks for. -/
def Submission.Brings (s : Submission) (os : List Outcome) (id : TaskId) (w : Wanted)
    (key : Option String) : Prop :=
  (∃ o ∈ os, s.Stores id o) ∧ s.Asks w key

theorem Submission.of_task {s : Submission} {task : TypedTask} (h : s.task? = some task) :
    s.kind = task.kind ∧ s.payload = task.payload := by
  cases s with
  | enqueueRaw | enqueueRawIdempotent => cases h
  | enqueue | enqueueAt | enqueueWithRegion | enqueueIdempotent | enqueueIdempotentWithRegion
  | enqueueInTx | enqueueInTxIdempotent =>
    cases h
    exact ⟨rfl, rfl⟩

theorem SameTask.wanted {r r' : TaskRow} (h : SameTask r r') : r'.wanted = r.wanted := by
  simp only [TaskRow.wanted, h.queue, h.kind, h.payload, h.priority, h.maxAttempts, h.traceId,
    h.region]

/-- An update leaves what is wanted as it is, and a key as it is or clears it. -/
theorem Submission.Asks.rewrites {s : Submission} {b : Began} {u : Update} {r r' : TaskRow}
    (h : s.Asks r.wanted r.idempotencyKey) (hrw : Update.Rewrites b u r r') :
    s.Asks r'.wanted r'.idempotencyKey := by
  rw [hrw.sameTask.wanted]
  refine ⟨h.payload, h.wanted, fun k hk => ?_⟩
  rcases hrw.key with ⟨hkey, -⟩ | ⟨hkey, -⟩
  · exact h.key k (hkey ▸ hk)
  · rw [hkey] at hk
    cases hk

/-- **Every task in the store comes from a submission**, and is what that asks for. -/
theorem Runs.exists_brings {ok : List Outcome → System → Move → Prop} {log : List (ℕ × AuditRow)}
    {n : ℕ} {os : List Outcome} {db : System} (h : Runs ok (.idle ∅ log n) os db)
    (hissued : ∀ o ∈ os, ∀ c, o.op = some c → c.Issued) {id : TaskId} {r : TaskRow}
    (hr : db.table.get id = some r) :
    ∃ s : Submission, s.Brings os id r.wanted r.idempotencyKey := by
  refine (h.keeps (I := fun r => ∃ s : Submission, s.Brings os id r.wanted r.idempotencyKey) id
    (fun r hr => ?_) fun x hx hold => ?_).1 r hr
  · cases hr
  · cases hold' : x.change.old with
    | none =>
      -- only the insert of the task starts its history
      obtain ⟨task, htask, lastError, hnew⟩ := (h.caused id x hx).of_none hold'
      obtain ⟨⟨o, ho, hxo⟩, hid⟩ := mem_history.mp hx
      cases o with
      | committed sid call b cs ls reply =>
        obtain ⟨c, hc, rfl⟩ := List.mem_map.mp hxo
        obtain ⟨e, id', now, s, hsubmit, hsaves⟩ := hissued _ ho call rfl task htask
        have hid' : id' = id := by
          rw [← hid, hnew]
          exact (e.submit_id hsubmit).symm
        have hchange : c = ⟨none, insertedRow b task lastError⟩ := by
          rw [← hold', ← hnew]
        refine ⟨s, ⟨_, ho, .intro (hid' ▸ hsubmit) hsaves (hchange ▸ hc)⟩, ?_⟩
        rw [hnew]
        exact e.submit_asks hsubmit
      | _ => cases hxo
    | some w =>
      obtain ⟨u, -, hrw⟩ := (h.caused id x hx).of_some hold'
      obtain ⟨s, hstored, hasks⟩ := hold w hold'
      exact ⟨s, hstored, hasks.rewrites hrw⟩

theorem wanted_of_tryFrom {r : TaskRow} {x : TaskRecord} (h : TaskRecord.tryFrom r = .ok x) :
    x.wanted = r.wanted ∧ x.idempotencyKey = r.idempotencyKey := by
  obtain ⟨hd, rfl⟩ := tryFrom_eq_ok_iff.mp h
  exact ⟨rfl, rfl⟩

/-- **What an answer shows comes from a submission**, of a commit before. -/
theorem Runs.brings_of_shown {ok : List Outcome → System → Move → Prop} {log : List (ℕ × AuditRow)}
    {n : ℕ} {os : List Outcome} {db : System} (h : Runs ok (.idle ∅ log n) os db)
    (hissued : ∀ o ∈ os, ∀ c, o.op = some c → c.Issued) {o : Outcome} (ho : o ∈ os)
    {x : TaskRecord} (hx : o.shown = some x) :
    ∃ s : Submission, s.Brings os x.id x.wanted x.idempotencyKey := by
  have hsid : ∃ sid, o.sid? = some sid := by
    cases o with
    | committed sid | returned sid => exact ⟨sid, rfl⟩
    | silent | failed => cases hx
  obtain ⟨sid, hsid⟩ := hsid
  have hinit : Runs ok (.idle ∅ log n) [] (.idle ∅ log n) := .init
  obtain ⟨_, ⟨ps, d, hpre, hr, rfl⟩, r, hget, hrx⟩ := hinit.version_of_shown h rfl ho hsid hx
  rw [List.nil_append] at hr
  obtain ⟨s, ⟨p, hp, hstores⟩, hasks⟩ :=
    hr.exists_brings (fun o ho => hissued o (hpre.subset ho)) hget
  obtain ⟨hwanted, hkey⟩ := wanted_of_tryFrom hrx
  exact ⟨s, ⟨p, hpre.subset hp, hstores⟩, hwanted ▸ hkey ▸ hasks⟩

/-! ## What a dispatch runs -/

section Dispatch

variable {H : Type} {ctx : DispatchContext H} {task : TaskRecord} {fromHex : String → Bool}

/-- If the effect runs a handler, it is the one of the kind, on the payload of the task. -/
def DispatchEffect.Fitting (ctx : DispatchContext H) (task : TaskRecord) (e : DispatchEffect H) :
    Prop :=
  ∀ handler payload c, e = .execute handler payload c →
    ctx.registry.get task.kind.asStr = some handler ∧ e = ctx.executeEffect task handler

theorem fitting_of_not_isCall {e : DispatchEffect H} (h : e.isCall = false) :
    e.Fitting ctx task := by
  rintro handler payload c rfl
  cases h

/-- A program that makes one write runs no handler. -/
theorem fitting_of_once {α : Type} {p : DispatchProgram H α} {op : Op}
    (h : p.Once DispatchEffect.isCall (.write op)) : p.All (DispatchEffect.Fitting ctx task) := by
  refine h.all.mono fun e he => ?_
  rcases he with he | rfl
  · exact fitting_of_not_isCall he
  · rintro handler payload c ⟨⟩

theorem fitting_dispatchJoined (joined : Joined) :
    (dispatchJoined ctx task fromHex joined).All (DispatchEffect.Fitting ctx task) := by
  cases hr : joined.result with
  | some r => exact fitting_of_once (once_outcome hr)
  | none =>
    obtain ⟨text, rfl⟩ := Joined.result_eq_none hr
    exact (all_dispatchCancelled fromHex text).mono fun _ => fitting_of_not_isCall

/-- A dispatch runs the handler of the kind, on the payload of its task. -/
theorem fitting_dispatchTask :
    (dispatchTask ctx task fromHex).All (DispatchEffect.Fitting ctx task) := by
  unfold dispatchTask
  split
  · exact fitting_of_once once_dispatchMissing
  next handler hget =>
    refine .bind (all_addEvent.mono fun _ => fitting_of_not_isCall) fun _ => ⟨?_, fun joined => ?_⟩
    · rintro handler' payload c heq
      cases heq
      exact ⟨hget, rfl⟩
    · exact fitting_dispatchJoined joined

/-- What holds of the effects of a dispatch holds of those of the client. -/
theorem all_asClient {P : DispatchEffect H → Prop} {α : Type} {a : Bool} {p : DispatchProgram H α}
    (hp : p.All P) : (DispatchProgram.asClient a p).All fun t =>
      ∀ e, t = .own (.dispatch e) → P e := by
  induction p with
  | pure | unwind => trivial
  | stmt e k ih =>
    refine ⟨fun e' he => ?_, fun r => ih _ (hp.2 _)⟩
    cases e with
    | write => cases he
    | error | lifecycle | addEvent | metric | execute | elapsed =>
      cases he
      exact hp.1

/-- **A tick runs the handler of the kind on what it has claimed.** -/
theorem executes_claimed {p : Poller H} {es : List (AppTaken H)} {q : AppProgram H Unit}
    (h : (pollTick fromHex p).Follows es q) {handler : H} {payload : Json} {c : TaskContext}
    {joined : Joined} (hexec : .own (.dispatch (.execute handler payload c)) joined ∈ es) :
    ∃ o task, .heard p.claimCall o ∈ es ∧ o.reply = some (.ok (.claimed (some task))) ∧
      p.registry.get task.kind.asStr = some handler ∧
        DispatchEffect.execute handler payload c =
          p.dispatchContext.executeEffect task handler := by
  rcases follows_callStore h with rfl | ⟨o, es, rfl, hrest⟩ | ⟨sid, es, rfl, hrest⟩
  · cases hexec
  · have hes : .own (.dispatch (.execute handler payload c)) joined ∈ es := by
      cases hexec with
      | tail _ hexec => exact hexec
    cases hreply : o.reply with
    | none =>
      rw [hreply] at hrest
      cases hrest
      cases hes
    | some reply =>
      rw [hreply, Option.getD_some] at hrest
      split at hrest
      next task =>
        refine ⟨o, task, List.mem_cons_self, hreply, ?_⟩
        have hall : (handleClaimed fromHex p task).All fun t => ∀ e, t = .own (.dispatch e) →
            DispatchEffect.Fitting p.dispatchContext task e := by
          refine ⟨fun e he => (by cases he), fun cancelled => ?_⟩
          cases cancelled with
          | true =>
            refine .bind ⟨fun e he => (by cases he), fun _ => trivial⟩ fun reply => ?_
            unfold reportReleasedTask
            split
            · refine .forM (fun event => ?_) _
              exact ⟨fun e he => (by cases he), fun _ => trivial⟩
            · trivial
          | false => exact all_asClient fitting_dispatchTask
        exact hrest.all hall hes _ rfl handler payload c rfl
      · cases hrest
        cases hes
  · cases hrest
    cases hexec with
    | tail _ hexec => cases hexec

end Dispatch

/-! ## Delivery -/

theorem taskContext_taskId (w : WorkerId) (writer : Bool) (task : TaskRecord) :
    (taskContext w writer task).taskId = task.id := by
  cases writer <;> rfl

/-- A handler handles what a submission has asked for: it is the one registered for the kind, it is
given the payload, and where the submission was of a value, and the adapter of its type is
registered, it handles the value. -/
structure Submission.Handled (s : Submission) (registry : TaskRegistry TaskHandler)
    (handler : TaskHandler) (payload : Json) (c : TaskContext) : Prop where
  submitted : s.payload = .ok payload
  registered : registry.get s.kind = some handler
  value : ∀ {T : Type} (t : TaskCode T) (a : T), t.RoundTrips → s.task? = some (t.value a) →
    registry.get t.kind = some (TaskHandlerAdapter.execute t.toTaskType) →
      handler payload c = t.execute a c

/-- A typed lookup of a task gives the value that was submitted, and one of another kind is
refused. -/
structure Submission.Got (s : Submission) (id : TaskId) (record : TaskRecord) : Prop where
  value : ∀ {T : Type} (t : TaskCode T) (a : T), t.RoundTrips → s.task? = some (t.value a) →
    getReply t.toTaskType id (.ok (some record)) = .ok a
  refused : ∀ {T : Type} (t : TaskType T), t.kind ≠ s.kind →
    getReply t id (.ok (some record)) = .error (invalidPayload ("task kind mismatch: expected " ++
      debugText t.kind ++ ", got " ++ debugText s.kind))

theorem Submission.Asks.handled {s : Submission} {task : TaskRecord}
    (h : s.Asks task.wanted task.idempotencyKey) {registry : TaskRegistry TaskHandler}
    {handler : TaskHandler} (hget : registry.get task.kind.asStr = some handler)
    (c : TaskContext) : s.Handled registry handler task.payload c := by
  have hkind : task.kind.asStr = s.kind := congrArg Wanted.kind h.wanted
  rw [hkind] at hget
  refine ⟨h.payload, hget, fun t a hround htask hreg => ?_⟩
  obtain ⟨hk, hpayload⟩ := Submission.of_task htask
  have hk : s.kind = t.kind := hk
  obtain rfl : handler = TaskHandlerAdapter.execute t.toTaskType := by
    rw [hk, hreg] at hget
    exact (Option.some.inj hget).symm
  exact execute_of_ok (hround a _ (hpayload.symm.trans h.payload)) c

theorem Submission.Asks.got {s : Submission} {task : TaskRecord}
    (h : s.Asks task.wanted task.idempotencyKey) (id : TaskId) : s.Got id task := by
  have hkind : task.kind.asStr = s.kind := congrArg Wanted.kind h.wanted
  refine ⟨fun t a hround htask => ?_, fun t hne => ?_⟩
  · obtain ⟨hk, hpayload⟩ := Submission.of_task htask
    have hread := hround a _ (hpayload.symm.trans h.payload)
    have hsame : task.kind.asStr = t.kind := hkind.trans hk
    rw [getReply, if_neg (not_not.mpr hsame)]
    exact congrArg (Except.mapError _) hread
  · have hother : task.kind.asStr ≠ t.kind := fun heq => hne (heq.symm.trans hkind)
    rw [getReply, if_pos hother, hkind]

/-- **What is asked for is what is run, and what is found.** In every run of the clients of a store,
among calls that insert what engines have been asked for: each handler that a dispatch runs handles
what a submission of its task has asked for, and each task that is found is what a submission of it
has asked for. -/
theorem submission_delivered {fromHex : String → Bool} {log : List (ℕ × AuditRow)} {n : ℕ}
    {evs : List (AppSite.Event TaskHandler)} {s : AppSite TaskHandler}
    (hrun : evs.foldlM (AppSite.step fromHex) (.idle ∅ log n) = some s)
    (hissued : ∀ o ∈ s.server.shown, ∀ c, o.op = some c → c.Issued) :
    (∀ client ∈ s.clients, ∀ p, client.origin = .pollTick p → ∀ handler payload c joined,
      .own (.dispatch (.execute handler payload c)) joined ∈ client.past →
        ∃ sub : Submission, (∃ o ∈ s.server.shown, sub.Stores c.taskId o) ∧
          sub.Handled p.registry handler payload c) ∧
      ∀ o ∈ s.server.shown, ∀ record, o.reply = some (.ok (.found (some record))) →
        ∃ sub : Submission, (∃ o ∈ s.server.shown, sub.Stores record.id o) ∧
          sub.Got record.id record := by
  have hsound := Site.Sound.of_run rfl hrun
  refine ⟨fun client hclient p horigin handler payload c joined hexec => ?_,
    fun o ho record hreply => ?_⟩
  · obtain ⟨⟨q, hfollows, -⟩, -, hheard⟩ := hsound.clients client hclient
    rw [horigin] at hfollows
    obtain ⟨o, task, ho, hreply, hget, heq⟩ := executes_claimed hfollows hexec
    cases heq
    -- the claim has shown the task that is dispatched
    have hshown : o.shown = some task := by
      rw [Outcome.shown, hreply]
      rfl
    obtain ⟨sub, hstored, hasks⟩ := Runs.brings_of_shown hsound.server.served hissued
      (hheard o (mem_output? ho)).1 hshown
    refine ⟨sub, ?_, hasks.handled hget _⟩
    rw [taskContext_taskId]
    exact hstored
  · have hshown : Outcome.shown o = some record := by
      rw [Outcome.shown, hreply]
      rfl
    obtain ⟨sub, hstored, hasks⟩ :=
      Runs.brings_of_shown hsound.server.served hissued ho hshown
    exact ⟨sub, hstored, hasks.got record.id⟩

/-! ## A run -/

/-- A task type whose values are JSON values, with a handler that returns. -/
def valueTask : TaskCode Json where
  kind := "email"
  deserialize := .ok
  execute _ _ := .ok (.ok ())
  typeName := "Value"
  serialize := .ok

/-- A worker with the adapter of that type. -/
def valuePoller : Poller TaskHandler where
  workerId := sampleWorker
  auditLog := false
  queue := sampleQueue
  config := .default
  registry := TaskRegistry.new.register "email" (TaskHandlerAdapter.execute valueTask.toTaskType)
  logPayload := false
  metrics := false
  checkpointWriter := true

/-- Surroundings in which handlers run. -/
def running : ∀ t : AppEffect TaskHandler, t.Answer
  | .dispatch (.execute handler payload c) => handler payload c
  | .dispatch (.error ..) | .dispatch (.lifecycle _) | .dispatch (.addEvent ..)
  | .dispatch (.metric ..) => ()
  | .dispatch .elapsed => 1000000
  | .dispatch (.write _) => .error "task storage error"
  | .emit _ => ()
  | .isCancelled => false

/-- The record of a submission of a value. -/
def valueRecord : TaskRecord := { sampleTask .default with payload := ⟨"7"⟩ }

/-- A value is submitted, and claimed and handled by a worker. -/
def deliveredMoves : List (AppSite.Event TaskHandler) :=
  [.call (callOf (.save valueRecord)) ⟨10⟩, .database (.exec 0 .all), .database (.finish 0),
    .enter (.pollTick valuePoller), .send 0 ⟨20⟩, .database (.exec 1 .all), .database (.finish 1),
    .hear 0 "", .act 0 running, .act 0 running]

/-- The payloads that a client has had handled, and the tasks they are of. -/
def executedOn (past : List (AppTaken TaskHandler)) : List (Json × TaskId) :=
  past.filterMap fun
    | .own (.dispatch (.execute _ payload c)) _ => some (payload, c.taskId)
    | _ => none

/-- The worker a client is a tick of. -/
def AppClient.worker? {H : Type} : AppClient H → Option (Poller H)
  | .pollTick p => some p
  | .sweepTick .. | .releaseLeases .. | .deleteTask .. => none

theorem AppClient.eq_pollTick {H : Type} {client : AppClient H} {p : Poller H}
    (h : client.worker? = some p) : client = .pollTick p := by
  cases client with
  | pollTick => exact congrArg AppClient.pollTick (Option.some.inj h)
  | sweepTick | releaseLeases | deleteTask => cases h

theorem exists_of_mem_executedOn {past : List (AppTaken TaskHandler)} {payload : Json}
    {id : TaskId} (h : (payload, id) ∈ executedOn past) :
    ∃ handler c joined, .own (.dispatch (.execute handler payload c)) joined ∈ past ∧
      c.taskId = id := by
  obtain ⟨e, he, heq⟩ := List.mem_filterMap.mp h
  split at heq
  next handler _ c joined =>
    cases heq
    exact ⟨handler, c, joined, he, rfl⟩
  · cases heq

/-- The handler of the sample is given the value that was submitted. -/
theorem value_delivered : ∃ (s : AppSite TaskHandler) (p : Poller TaskHandler)
    (handler : TaskHandler) (c : TaskContext) (sub : Submission),
      deliveredMoves.foldlM (AppSite.step fun _ => true) (.idle ∅ [] 1) = some s ∧
        c.taskId = ⟨1⟩ ∧ (∃ o ∈ s.server.shown, sub.Stores c.taskId o) ∧
          sub.Handled p.registry handler ⟨"7"⟩ c := by
  have hrun : (deliveredMoves.foldlM (AppSite.step fun _ => true) (.idle ∅ [] 1)).map (fun s =>
      (s.server.shown.filterMap Output.op, s.clients.map fun c =>
        ((c.origin.worker?).map Poller.workerId, executedOn c.past))) =
      some ([callOf (.save valueRecord), valuePoller.claimCall],
        [(some sampleWorker, [(⟨"7"⟩, ⟨1⟩)])]) := by
    decide +kernel
  obtain ⟨s, hs, heq⟩ := Option.map_eq_some_iff.mp hrun
  obtain ⟨hcalls, hclients⟩ := Prod.mk.inj heq
  have hissued : ∀ o ∈ s.server.shown, ∀ c, o.op = some c → c.Issued := by
    intro o ho c hc task ht
    have hmem : c ∈ s.server.shown.filterMap Output.op := List.mem_filterMap.mpr ⟨o, ho, hc⟩
    rw [hcalls] at hmem
    rcases List.mem_pair.mp hmem with rfl | rfl
    · obtain rfl := List.mem_singleton.mp ht
      exact ⟨sampleEngine, ⟨1⟩, 0, .enqueue "default" (valueTask.value ⟨"7"⟩), rfl, .enqueue⟩
    · cases ht
  -- the only client is a tick of the worker, which has had the payload handled
  have hexec : ∃ client ∈ s.clients,
      (client.origin.worker?).map Poller.workerId = some sampleWorker ∧
        (⟨"7"⟩, ⟨1⟩) ∈ executedOn client.past := by
    have hmem : (some sampleWorker, [(⟨"7"⟩, ⟨1⟩)]) ∈ s.clients.map fun c =>
        ((c.origin.worker?).map Poller.workerId, executedOn c.past) := by
      rw [hclients]
      exact List.mem_singleton_self _
    obtain ⟨client, hclient, heq⟩ := List.mem_map.mp hmem
    obtain ⟨hworker, hpast⟩ := Prod.mk.inj heq
    exact ⟨client, hclient, hworker, hpast ▸ List.mem_singleton_self _⟩
  obtain ⟨client, hclient, hworker, hpast⟩ := hexec
  obtain ⟨p, hp, -⟩ := Option.map_eq_some_iff.mp hworker
  obtain ⟨handler, c, joined, hmem, hid⟩ := exists_of_mem_executedOn hpast
  obtain ⟨sub, hstored, hhandled⟩ := (submission_delivered hs hissued).1 client hclient p
    (AppClient.eq_pollTick hp) handler ⟨"7"⟩ c joined hmem
  exact ⟨s, p, handler, c, sub, hs, hid, hstored, hhandled⟩

end IronDefer
