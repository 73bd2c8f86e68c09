import IronDefer.Application.Dispatch

/-!
# Payloads and lifecycle records

A typed handler is registered behind an adapter that deserializes the payload for it. With payloads
kept out of the logs, two dispatches whose handlers behave alike write the same lifecycle records,
except for one way around the flag: the adapter reports a payload that does not deserialize with the
text of the deserializer, which quotes from it, and the worker logs the text of the error.

## Main definitions

* `TaskType`, `TaskHandlerAdapter.execute`: a task type and the handler registered for it
* `Surroundings`: the store and the clock of a dispatch
* `lifecycleLogs`: the lifecycle records of a dispatch
* `TaskType.Alike`: a handler behaves the same way on two payloads, apart from reading them

## Main results

* `dispatchJoined_payload`: what follows the join does not depend on the payload
* `logs_identical_iff`: the records are identical exactly if the payloads deserialize, or fail to
  with the same text
-/

namespace IronDefer

open RowStore (Program)

/-! ## The adapter -/

/-- A task type: its kind, its deserializer with the text of a failure, and its handler. -/
structure TaskType (T : Type) where
  kind : String
  deserialize : Json → Except String T
  execute : T → TaskContext → Joined

/-- A handler as the registry holds it. -/
abbrev TaskHandler := Json → TaskContext → Joined

/-- The text of an error of the adapter. -/
def deserializationError (message : String) : String :=
  "task payload is invalid: deserialization failed: " ++ message

def TaskHandlerAdapter.execute {T : Type} (t : TaskType T) : TaskHandler := fun payload ctx =>
  match t.deserialize payload with
  | .ok task => t.execute task ctx
  | .error message => .ok (.error (.other (deserializationError message)))

/-- The handler of the type behaves the same way on both payloads, apart from reading them. -/
def TaskType.Alike {T : Type} (t : TaskType T) (ctx : TaskContext) (p₁ p₂ : Json) : Prop :=
  (∃ a b, t.deserialize p₁ = .ok a ∧ t.deserialize p₂ = .ok b ∧ t.execute a ctx = t.execute b ctx) ∨
    ∃ e₁ e₂, t.deserialize p₁ = .error e₁ ∧ t.deserialize p₂ = .error e₂

/-- The deserializer gives the same text for both payloads, where it fails on both. -/
def TaskType.SameFailure {T : Type} (t : TaskType T) (p₁ p₂ : Json) : Prop :=
  ∀ e₁ e₂, t.deserialize p₁ = .error e₁ → t.deserialize p₂ = .error e₂ → e₁ = e₂

/-! ## The records of a dispatch -/

/-- What a dispatch finds around it: the answer of the store to its write, and the time it takes. -/
structure Surroundings where
  answer : Except String TaskRecord
  elapsed : Duration

def Surroundings.respond (s : Surroundings) : ∀ e : DispatchEffect TaskHandler, e.Answer
  | .error .. | .lifecycle _ | .addEvent .. | .metric .. => ()
  | .execute handler payload ctx => handler payload ctx
  | .elapsed => s.elapsed
  | .write _ => s.answer

def DispatchEffect.log? {H : Type} : DispatchEffect H → Option LifecycleLog
  | .lifecycle log => some log
  | _ => none

/-- The lifecycle records a program emits. -/
def Surroundings.records {α : Type} (s : Surroundings) (p : DispatchProgram TaskHandler α) :
    List LifecycleLog :=
  (p.perform s.respond).1.filterMap DispatchEffect.log?

/-- The lifecycle records of the dispatch of a task. -/
def lifecycleLogs (s : Surroundings) (ctx : DispatchContext TaskHandler) (fromHex : String → Bool)
    (task : TaskRecord) : List LifecycleLog :=
  s.records (dispatchTask ctx task fromHex)

/-! ## Independence of the payload -/

section Payload

variable {ctx : DispatchContext TaskHandler} {task : TaskRecord} {fromHex : String → Bool}
  {s : Surroundings}

section Unlogged

variable {H : Type} {ctx : DispatchContext H}

theorem handleTaskFailure_payload (hlog : ctx.logPayload = false) (payload : Json) (err : String)
    (elapsed : Duration) :
    handleTaskFailure ctx { task with payload } err elapsed =
      handleTaskFailure ctx task err elapsed := by
  unfold handleTaskFailure
  rw [hlog]
  refine congrArg _ (funext fun answer => ?_)
  cases answer with
  | ok record => rfl
  | error failErr => rfl

theorem dispatchPanicked_payload (hlog : ctx.logPayload = false) (payload : Json)
    (panicMsg : String) :
    dispatchPanicked ctx { task with payload } fromHex panicMsg =
      dispatchPanicked ctx task fromHex panicMsg := by
  unfold dispatchPanicked
  rw [hlog]
  refine congrArg _ (funext fun _ => congrArg _ (funext fun _ => congrArg _ (funext fun answer => ?_)))
  cases answer with
  | ok record => rfl
  | error e => rfl

theorem dispatchReturned_payload (hlog : ctx.logPayload = false) (payload : Json)
    (result : Except HandlerError Unit) :
    dispatchReturned ctx { task with payload } fromHex result =
      dispatchReturned ctx task fromHex result := by
  unfold dispatchReturned
  rw [hlog]
  -- the records differ in the payload only, which the flag leaves out
  refine congrArg _ (funext fun elapsed => ?_)
  cases result with
  | ok u =>
    dsimp only
    refine congrArg _ (funext fun answer => ?_)
    cases answer with
    | ok record => rfl
    | error e => rfl
  | error err =>
    cases err with
    | suspendRequested =>
      dsimp only
      refine congrArg _ (funext fun answer => ?_)
      cases answer with
      | ok record => rfl
      | error e => rfl
    | other text =>
      exact congrArg _ (funext fun _ => handleTaskFailure_payload hlog payload text elapsed)

/-- **Without the flag, what follows the join is the same whatever the payload is.** -/
theorem dispatchJoined_payload (hlog : ctx.logPayload = false) (payload : Json) (joined : Joined) :
    dispatchJoined ctx { task with payload } fromHex joined =
      dispatchJoined ctx task fromHex joined := by
  cases joined with
  | ok result => exact dispatchReturned_payload hlog payload result
  | error e =>
    cases e with
    | panic panicPayload => exact dispatchPanicked_payload hlog payload _
    | cancelled text => rfl

end Unlogged

theorem records_addEvent {α : Type} {fromStatus toStatus : TaskStatus}
    {extra : Option (String × String)} (f : Unit → DispatchProgram TaskHandler α) :
    s.records (addEvent ctx task fromHex fromStatus toStatus extra >>= f) = s.records (f ()) := by
  unfold addEvent
  by_cases h : task.traceId.any fromHex = true
  · rw [if_pos h]
    rfl
  · rw [if_neg h]
    rfl

theorem records_recordMetric {instrument : Instrument} {value : ℚ}
    {labels : List (String × String)} :
    s.records (recordMetric ctx task instrument value labels) = [] := by
  unfold recordMetric
  by_cases h : ctx.metrics = true
  · rw [if_pos h]
    rfl
  · rw [if_neg h]
    rfl

theorem records_recordMetrics {i j : Instrument} {v w : ℚ} {l m : List (String × String)} :
    s.records (recordMetric ctx task i v l >>= fun _ => recordMetric ctx task j w m) = [] := by
  have hrest : s.records (recordMetric ctx task j w m) = [] := records_recordMetric
  unfold recordMetric at hrest ⊢
  by_cases h : ctx.metrics = true
  · simp only [if_pos h] at hrest ⊢
    exact hrest
  · simp only [if_neg h] at hrest ⊢
    exact hrest

/-- The records of a dispatch are those that follow the join of its handler. -/
theorem lifecycleLogs_eq {handler : TaskHandler}
    (hget : ctx.registry.get task.kind.asStr = some handler) :
    lifecycleLogs s ctx fromHex task = s.records (dispatchJoined ctx task fromHex
      (handler task.payload (taskContext ctx.workerId ctx.checkpointWriter task))) := by
  rw [lifecycleLogs, dispatchTask, hget]
  exact records_addEvent _

/-- A failure is told in one record, with the text of its error. -/
theorem records_failure (text : String) :
    s.records (dispatchJoined ctx task fromHex (.ok (.error (.other text)))) =
      [match s.answer with
        | .ok record => emitTaskFailed task ctx.workerId record text ctx.logPayload
        | .error e => emitTaskFailStorageError task ctx.workerId
            ("handler error: " ++ text ++ "; repo.fail failure: " ++ e) ctx.logPayload] := by
  have hreport : s.records (dispatchJoined ctx task fromHex (.ok (.error (.other text)))) =
      s.records (handleTaskFailure ctx task text s.elapsed) :=
    records_addEvent fun _ => handleTaskFailure ctx task text s.elapsed
  rw [hreport]
  cases s with
  | mk answer elapsed =>
    cases answer with
    | ok record => exact congrArg (_ :: ·) records_recordMetrics
    | error e => exact congrArg (_ :: ·) records_recordMetric

theorem lifecycleLog_inj {workerId : WorkerId} {logPayload : Bool} {e₁ e₂ : LifecycleEvent}
    (h : lifecycleLog task workerId logPayload e₁ = lifecycleLog task workerId logPayload e₂) :
    e₁ = e₂ :=
  congrArg LifecycleLog.event h

theorem emitTaskFailed_inj {workerId : WorkerId} {record : TaskRecord} {logPayload : Bool}
    {text₁ text₂ : String}
    (h : emitTaskFailed task workerId record text₁ logPayload =
      emitTaskFailed task workerId record text₂ logPayload) : text₁ = text₂ := by
  unfold emitTaskFailed at h
  split at h <;> injection lifecycleLog_inj h

/-- Whatever the store answers, the records of two failures tell their errors apart. -/
theorem records_failure_inj {text₁ text₂ : String}
    (h : s.records (dispatchJoined ctx task fromHex (.ok (.error (.other text₁)))) =
      s.records (dispatchJoined ctx task fromHex (.ok (.error (.other text₂))))) :
    text₁ = text₂ := by
  rw [records_failure, records_failure] at h
  have hlog := List.singleton_inj.mp h
  split at hlog
  next record => exact emitTaskFailed_inj hlog
  next e =>
    injection lifecycleLog_inj hlog with _ herror
    have hrest := (String.append_left_inj _).mp herror
    exact (String.append_right_inj _).mp ((String.append_left_inj _).mp hrest)

section Adapter

variable {T : Type} {t : TaskType T} {p p₁ p₂ : Json}

theorem execute_of_error {e : String} (h : t.deserialize p = .error e) (c : TaskContext) :
    TaskHandlerAdapter.execute t p c = .ok (.error (.other (deserializationError e))) := by
  unfold TaskHandlerAdapter.execute
  rw [h]

theorem execute_of_ok {a : T} (h : t.deserialize p = .ok a) (c : TaskContext) :
    TaskHandlerAdapter.execute t p c = t.execute a c := by
  unfold TaskHandlerAdapter.execute
  rw [h]

variable (hreg : ctx.registry.get t.kind = some (TaskHandlerAdapter.execute t))
  (hkind : task.kind.asStr = t.kind) (hlog : ctx.logPayload = false)
include hreg hkind hlog

theorem lifecycleLogs_payload (payload : Json) :
    lifecycleLogs s ctx fromHex { task with payload } =
      s.records (dispatchJoined ctx task fromHex (TaskHandlerAdapter.execute t payload
        (taskContext ctx.workerId ctx.checkpointWriter task))) := by
  have hget : ctx.registry.get ({ task with payload } : TaskRecord).kind.asStr =
      some (TaskHandlerAdapter.execute t) := by rw [← hreg, ← hkind]
  rw [lifecycleLogs_eq hget, dispatchJoined_payload hlog]
  rfl

theorem sameFailure_of_logs_eq
    (h : lifecycleLogs s ctx fromHex { task with payload := p₁ } =
      lifecycleLogs s ctx fromHex { task with payload := p₂ }) : t.SameFailure p₁ p₂ := by
  intro e₁ e₂ h₁ h₂
  rw [lifecycleLogs_payload hreg hkind hlog, lifecycleLogs_payload hreg hkind hlog,
    execute_of_error h₁, execute_of_error h₂] at h
  exact (String.append_right_inj _).mp (records_failure_inj h)

/-- **The lifecycle records of two dispatches that behave alike are identical exactly if no text of
the deserializer tells their payloads apart.** -/
theorem logs_identical_iff
    (halike : t.Alike (taskContext ctx.workerId ctx.checkpointWriter task) p₁ p₂) :
    lifecycleLogs s ctx fromHex { task with payload := p₁ } =
        lifecycleLogs s ctx fromHex { task with payload := p₂ } ↔
      t.SameFailure p₁ p₂ := by
  refine ⟨sameFailure_of_logs_eq hreg hkind hlog, fun hsame => ?_⟩
  rw [lifecycleLogs_payload hreg hkind hlog, lifecycleLogs_payload hreg hkind hlog]
  rcases halike with ⟨a, b, ha, hb, hab⟩ | ⟨e₁, e₂, h₁, h₂⟩
  · -- both payloads are read, and the handler does not tell them apart
    rw [execute_of_ok ha, execute_of_ok hb, hab]
  · rw [execute_of_error h₁, execute_of_error h₂, hsame e₁ e₂ h₁ h₂]

end Adapter

end Payload

/-! ## A payload of the wrong type -/

/-- A task type whose payload is a number, kept by its text. A string in its place is quoted in the
error, as serde does. -/
def numberTask : TaskType String where
  kind := "email"
  deserialize payload :=
    if payload.text.toList.head? = some '"' then
      .error ("invalid type: string " ++ payload.text ++ ", expected i32")
    else .ok payload.text
  execute _ _ := .ok (.ok ())

def numberContext : DispatchContext TaskHandler :=
  WorkerConfig.default.dispatchContext
    (TaskRegistry.new.register "email" (TaskHandlerAdapter.execute numberTask)) sampleWorker false
    true sampleQueue false

/-- The store takes the failure and schedules the task again. -/
def acceptingStore : Surroundings := ⟨.ok (sampleTask .default), 1000000⟩

theorem numbers_logged_alike :
    lifecycleLogs acceptingStore numberContext (fun _ => true)
        { sampleTask .default with payload := ⟨"1"⟩ } =
      lifecycleLogs acceptingStore numberContext (fun _ => true)
        { sampleTask .default with payload := ⟨"2"⟩ } :=
  have hone : numberTask.deserialize ⟨"1"⟩ = .ok "1" := by decide
  have htwo : numberTask.deserialize ⟨"2"⟩ = .ok "2" := by decide
  (logs_identical_iff (t := numberTask) rfl rfl rfl (.inl ⟨_, _, hone, htwo, rfl⟩)).mpr
    fun _ _ h₁ _ => by
      rw [hone] at h₁
      cases h₁

/-- Two payloads that both fail to deserialize leave different records: the text of each is in the
error that is logged. -/
theorem secret_logged :
    numberTask.Alike (taskContext sampleWorker false (sampleTask .default)) ⟨"\"secret\""⟩
        ⟨"\"other\""⟩ ∧
      lifecycleLogs acceptingStore numberContext (fun _ => true)
          { sampleTask .default with payload := ⟨"\"secret\""⟩ } ≠
        lifecycleLogs acceptingStore numberContext (fun _ => true)
          { sampleTask .default with payload := ⟨"\"other\""⟩ } := by
  have h₁ : numberTask.deserialize ⟨"\"secret\""⟩ =
      .error "invalid type: string \"secret\", expected i32" := by decide
  have h₂ : numberTask.deserialize ⟨"\"other\""⟩ =
      .error "invalid type: string \"other\", expected i32" := by decide
  refine ⟨.inr ⟨_, _, h₁, h₂⟩, fun h => ?_⟩
  have hsame := sameFailure_of_logs_eq rfl rfl rfl h _ _ h₁ h₂
  revert hsame
  decide

end IronDefer
