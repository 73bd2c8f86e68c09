import IronDefer.Api.Delivery
import IronDefer.Api.Enqueued
import IronDefer.Api.TaskList
import IronDefer.Api.TraceParent

/-!
# Creating a task through the API

`POST /tasks` submits what its body asks for, under the trace that its header names, and answers
with the task: with 201 where the submission has created it, and with 200 where the key of the body
has led to one that was there. What has been answered is what `GET /tasks/{id}` finds from then on,
in a later version.

## Main definitions

* `CreateTaskRequest`, `CreateTaskRequest.submission`: the body, and what it submits
* `createTaskReply`, `getTaskReply`: the endpoints, by what the repository returns
* `Posted`: what the answer to a submission tells is so

## Main results

* `Runs.posted`: the answer to a submission tells of its own task, or of one under its key
* `Runs.found_of_submitted`: a later lookup finds that task, in a later version
* `posted_task_found`: **a task that has been posted is found**, as it was asked for
-/

namespace IronDefer

open RowStore

/-! ## The endpoints -/

/-- The body of `POST /tasks`. -/
structure CreateTaskRequest where
  queue : Option String
  kind : String
  payload : Json
  scheduledAt : Option DateTime
  priority : Option Int
  maxAttempts : Option I32
  idempotencyKey : Option String
  region : Option String

/-- The trace that a request names. -/
def requestTraceId (T : HeaderText) (traceparent : Option (List UInt8)) : Option String :=
  (extractTraceId T traceparent).map String.ofList

/-- What `POST /tasks` submits, with the trace of the header `traceparent`. -/
def CreateTaskRequest.submission (T : HeaderText) (traceparent : Option (List UInt8))
    (body : CreateTaskRequest) : Submission :=
  let queue := body.queue.getD "default"
  let traceId := requestTraceId T traceparent
  match body.idempotencyKey with
  | some idempotencyKey =>
    .enqueueRawIdempotent queue body.kind body.payload body.scheduledAt body.priority
      body.maxAttempts idempotencyKey traceId body.region
  | none =>
    .enqueueRaw queue body.kind body.payload body.scheduledAt body.priority body.maxAttempts traceId
      body.region

/-- The record of an accepted submission, and whether that has created it. -/
def Response.submitted : Response → Option (TaskRecord × Bool)
  | task record => some (record, true)
  | saved record created => some (record, created)
  | _ => none

/-- `POST /tasks`, by what the submission returns. -/
def createTaskReply (display : RepoError → String) :
    Except RepoError (TaskRecord × Bool) → Except AppError (ℕ × TaskResponse)
  | .ok (record, created) => .ok (if created then 201 else 200, .ofRecord record)
  | .error e => .error (.ofTaskError display e)

/-- `GET /tasks/{id}`, by what the lookup returns. -/
def getTaskReply (display : RepoError → String) (id : TaskId) :
    Except RepoError (Option TaskRecord) → Except AppError TaskResponse
  | .ok (some record) => .ok (.ofRecord record)
  | .ok none => .error (.ofTaskError display (.notFound id))
  | .error e => .error (.ofTaskError display e)

/-! ## What is answered -/

/-- What the answer to a submission tells is so: the task comes from a submission of its queue,
which is this one where the task has been created, and one with its key where it was there. -/
structure Posted (os : List Outcome) (s : Submission) (id : TaskId) (record : TaskRecord)
    (created : Bool) : Prop where
  exists_brings : ∃ s' : Submission,
    s'.Brings os record.id record.wanted record.idempotencyKey ∧ s'.queue = s.queue ∧
      s'.idempotencyKey = s.idempotencyKey
  own : created = true → record.id = id ∧ s.Asks record.wanted record.idempotencyKey ∧
    record.idempotencyKey = s.idempotencyKey ∧ record.status = .pending
  repeated : created = false → record.status.isTerminal = false ∧ s.idempotencyKey.isSome = true

section Posted

variable {ok : List Outcome → System → Move → Prop} {log : List (ℕ × AuditRow)} {n : ℕ}
  {os : List Outcome} {db : System} {e : Engine} {id : TaskId} {now : DateTime} {s : Submission}
  {task record : TaskRecord} {op : Op} {o : Outcome} {a created : Bool} {x : Response}

theorem Submission.saves_of_saveOp (h : s.saveOp task = some op) : s.Saves task op := by
  cases s with
  | enqueueInTx | enqueueInTxIdempotent => cases h
  | enqueue | enqueueAt | enqueueWithRegion | enqueueRaw | enqueueIdempotent
  | enqueueIdempotentWithRegion | enqueueRawIdempotent =>
    cases h
    constructor

theorem Submission.saveOp_cases (h : s.saveOp task = some op) :
    op = .save task ∨ op = .saveIdempotent task := by
  cases s with
  | enqueueInTx | enqueueInTxIdempotent => cases h
  | enqueue | enqueueAt | enqueueWithRegion | enqueueRaw =>
    cases h
    exact .inl rfl
  | enqueueIdempotent | enqueueIdempotentWithRegion | enqueueRawIdempotent =>
    cases h
    exact .inr rfl

/-- A task that is reported as created is the submission's own. -/
theorem posted_of_created (hsubmit : e.submit id now s = .ok task) (hsave : s.saveOp task = some op)
    {sid : ℕ} {b : Began} {cs : List (Change TaskRow)} {ls : List (ℕ × AuditRow)} {reply : Reply}
    (ho : .committed sid ⟨a, op, none⟩ b cs ls reply ∈ os)
    (hc : ⟨none, savedRow b task⟩ ∈ cs)
    (hdecoded : TaskRecord.tryFrom (savedRow b task) = .ok record) :
    Posted os s id record true := by
  obtain ⟨hd, rfl⟩ := tryFrom_eq_ok_iff.mp hdecoded
  have hid : task.id = id := e.submit_id hsubmit
  have hasks : s.Asks task.wanted task.idempotencyKey := e.submit_asks hsubmit
  obtain ⟨payload, -, hbuilt⟩ := e.submit_built hsubmit
  have hfresh := (e.submit_enqueued hsubmit).fresh
  refine ⟨⟨s, ⟨⟨_, ho, ?_⟩, hasks⟩, rfl, rfl⟩, fun _ => ⟨hid, hasks, hbuilt.key, hfresh.status⟩,
    fun hrepeated => (by cases hrepeated)⟩
  exact .intro (hid ▸ hsubmit) (Submission.saves_of_saveOp hsave) hc

/-- **The answer to a submission tells of its own task, or of one under its key.** -/
theorem Runs.posted (h : Runs ok (.idle ∅ log n) os db)
    (hissued : ∀ o ∈ os, ∀ c, o.op = some c → c.Issued) (hsubmit : e.submit id now s = .ok task)
    (hsave : s.saveOp task = some op) (ho : o ∈ os) (hop : o.op = some ⟨a, op, none⟩)
    (hreply : o.reply = some (.ok x)) (hx : x.submitted = some (record, created)) :
    Posted os s id record created := by
  have hbatch : ∀ replies, x ≠ .batch replies := by
    rintro replies rfl
    cases hx
  obtain ⟨sid, call, b, cs, ls, rfl, hspec⟩ := h.committed_of_response ho hbatch hreply
  cases hop
  rcases Submission.saveOp_cases hsave with rfl | rfl
  · obtain ⟨xs, row, hsaved, hrep⟩ := hspec.of_save
    obtain ⟨record', hdecoded, rfl⟩ := eq_of_map_eq_ok hrep.symm
    cases hx
    obtain ⟨rfl, hdecoded⟩ := hsaved.created hdecoded
    exact posted_of_created hsubmit hsave ho List.mem_cons_self hdecoded
  · obtain ⟨xs, res, hsaved, hrep⟩ := hspec.of_saveIdempotent
    cases hsaved with
    | new hins =>
      obtain rfl := hins.eq_insertedRow
      obtain ⟨record', hdecoded, rfl⟩ := eq_of_map_eq_ok hrep.symm
      cases hx
      exact posted_of_created hsubmit hsave ho List.mem_cons_self hdecoded
    | @old row hins hsel =>
      obtain ⟨record', hdecoded, rfl⟩ := eq_of_map_eq_ok hrep.symm
      cases hx
      -- the row found has the queue and the key of the task, and is not finished
      obtain ⟨t, env, free, -, -, hfind⟩ := hsel
      have hactive := List.find?_some hfind
      simp only [isActive, Bool.and_eq_true, decide_eq_true_eq, Bool.not_eq_true'] at hactive
      obtain ⟨⟨⟨hqueue, hkey⟩, hsome⟩, hterm⟩ := hactive
      obtain ⟨hwanted, hrkey⟩ := wanted_of_tryFrom hdecoded
      obtain ⟨payload, -, hbuilt⟩ := e.submit_built hsubmit
      obtain ⟨s', hbrings⟩ := h.brings_of_shown hissued ho rfl
      rw [hbuilt.key] at hkey hsome
      refine ⟨⟨s', hbrings, ?_, ?_⟩, fun hcreated => (by cases hcreated), fun _ => ⟨?_, hsome⟩⟩
      · have hfound : record.queue.asStr = s'.queue := congrArg Wanted.queue hbrings.2.wanted
        have hrow : record.queue.asStr = row.queue := congrArg Wanted.queue hwanted
        have hown : task.queue.asStr = s.queue := congrArg Wanted.queue hbuilt.wanted
        rw [← hfound, hrow, hqueue, hown]
      · obtain ⟨k, hk⟩ := Option.isSome_iff_exists.mp hsome
        rw [hk] at hkey ⊢
        exact hbrings.2.key k (hrkey.trans hkey)
      · obtain ⟨hd, rfl⟩ := tryFrom_eq_ok_iff.mp hdecoded
        exact hterm
    | gone => cases hrep

end Posted

/-! ## What is found -/

section Found

variable {ok ok' : List Outcome → System → Move → Prop} {log : List (ℕ × AuditRow)} {n : ℕ}
  {os ps : List Outcome} {db d : System} {id : TaskId} {o : Outcome} {record : TaskRecord}

theorem Op.Spec.id_of_found {rely : Table TaskRow.id → (TaskId → Bool) → Env → Prop} {a : Bool}
    {b : Began} {cs : List (Change TaskRow)} {ls : List AuditRow} {reply : Reply}
    (h : Op.Spec rely a b (.findById id) cs ls (.commit reply))
    (hreply : reply = .ok (.found (some record))) : record.id = id := by
  cases h with
  | notFound => cases hreply
  | found hsel =>
    obtain ⟨record', hdecoded, heq⟩ := eq_of_map_eq_ok hreply
    cases heq
    obtain ⟨t, env, free, -, -, hfind⟩ := hsel
    obtain ⟨hd, rfl⟩ := tryFrom_eq_ok_iff.mp hdecoded
    have hid := List.find?_some hfind
    exact of_decide_eq_true hid
  | transition htr => cases htr

/-- What a lookup of a task finds has its id. -/
theorem Runs.id_of_found (h : Runs ok (.idle ∅ log n) os db) (ho : o ∈ os) {a : Bool}
    {x : Option Execution} (hop : o.op = some ⟨a, .findById id, x⟩)
    (hreply : o.reply = some (.ok (.found (some record)))) : record.id = id := by
  have hbatch : ∀ replies, Response.found (some record) ≠ .batch replies :=
    fun _ h => (by cases h)
  obtain ⟨sid, call, b, cs, ls, rfl, hspec⟩ := h.committed_of_response ho hbatch hreply
  cases hop
  exact hspec.id_of_found rfl

/-- The answer to a submission shows its task. -/
theorem shown_of_submitted {x : Response} {created : Bool} (hreply : o.reply = some (.ok x))
    (hx : x.submitted = some (record, created)) : o.shown = some record := by
  rw [Outcome.shown, hreply]
  cases x with
  | task | saved =>
    cases hx
    rfl
  | _ => cases hx

/-- **A lookup finds what a submission has been answered with**, in a later version, where it begins
after the answer. -/
theorem Runs.found_of_submitted (h : Runs ok (.idle ∅ log n) os db) (h' : Runs ok' db ps d)
    (ho : o ∈ os) {x : Response} {created : Bool} (hreply : o.reply = some (.ok x))
    (hx : x.submitted = some (record, created)) {o' : Outcome} (ho' : o' ∈ ps) {sid' : ℕ}
    (hsid' : o'.sid? = some sid') (hnew : db.sessions.get sid' = none) {a : Bool}
    {y : Option Execution} (hop' : o'.op = some ⟨a, .findById record.id, y⟩)
    {found : Option TaskRecord} (hreply' : o'.reply = some (.ok (.found found))) :
    ∃ record', found = some record' ∧ Later record record' := by
  have hshown : o.shown = some record := shown_of_submitted hreply hx
  obtain ⟨sid, hsid⟩ : ∃ sid, o.sid? = some sid := by
    cases o with
    | committed sid | returned sid => exact ⟨sid, rfl⟩
    | silent | failed => cases hreply
  cases found with
  | none =>
    exact absurd ⟨_, _, hop', hreply', .findById⟩
      (h.not_misses_of_shown h' ho hsid ho' hsid' hnew hshown)
  | some record' =>
    have hrun : Runs (fun _ _ _ => True) (.idle ∅ log n) (os ++ ps) d :=
      (h.mono fun _ _ _ _ => trivial).trans (h'.mono fun _ _ _ _ => trivial)
    have hid := hrun.id_of_found (List.mem_append_right os ho') hop' hreply'
    have hshown' : o'.shown = some record' := by
      rw [Outcome.shown, hreply']
      rfl
    exact ⟨record', rfl, h.later_of_shown h' ho hsid ho' hsid' hnew hshown hshown' hid⟩

end Found

/-- The response to `POST /tasks` shows what the body asks for, under the trace of the request. -/
structure TaskResponse.Shows (r : TaskResponse) (body : CreateTaskRequest)
    (traceId : Option String) : Prop where
  queue : r.queue = body.queue.getD "default"
  kind : r.kind = body.kind
  payload : r.payload = body.payload
  status : r.status = "pending"
  priority : r.priority = body.priority.getD Priority.default.get
  maxAttempts : r.maxAttempts = body.maxAttempts.getD MaxAttempts.default.get
  idempotencyKey : r.idempotencyKey = body.idempotencyKey
  traceId : r.traceId = traceId
  region : r.region = body.region

section Posts

variable {T : HeaderText} {traceparent : Option (List UInt8)}
  {body : CreateTaskRequest} {ok ok' : List Outcome → System → Move → Prop}
  {log : List (ℕ × AuditRow)} {n : ℕ} {os ps : List Outcome} {db d : System} {e : Engine}
  {id : TaskId} {now : DateTime} {task record : TaskRecord} {op : Op} {o : Outcome}
  {a created : Bool} {x : Response}

/-- The submission of a request is what its body asks for. -/
theorem CreateTaskRequest.submission_cases (T : HeaderText) (traceparent : Option (List UInt8))
    (body : CreateTaskRequest) :
    (body.submission T traceparent).queue = body.queue.getD "default" ∧
      (body.submission T traceparent).idempotencyKey = body.idempotencyKey ∧
      (body.submission T traceparent).payload = .ok body.payload ∧
      (body.submission T traceparent).wanted body.payload =
        ⟨body.queue.getD "default", body.kind, body.payload,
          body.priority.getD Priority.default.get,
          body.maxAttempts.getD MaxAttempts.default.get, requestTraceId T traceparent,
          body.region⟩ := by
  unfold CreateTaskRequest.submission
  cases body.idempotencyKey with
  | some key => exact ⟨rfl, rfl, rfl, rfl⟩
  | none => exact ⟨rfl, rfl, rfl, rfl⟩

/-- The response for a task that a request has created. -/
theorem Posted.shows (h : Posted os (body.submission T traceparent) id record true) :
    (TaskResponse.ofRecord record).Shows body (requestTraceId T traceparent) := by
  obtain ⟨-, hasks, hkey, hstatus⟩ := h.own rfl
  obtain ⟨-, hkey', hpayload, hwanted⟩ := CreateTaskRequest.submission_cases T traceparent body
  have hp : record.wanted.payload = body.payload :=
    (Except.ok.inj (hasks.payload.symm.trans hpayload))
  have hw := hasks.wanted
  rw [hp, hwanted] at hw
  exact {
    queue := congrArg Wanted.queue hw
    kind := congrArg Wanted.kind hw
    payload := hp
    status := congrArg statusToStr hstatus
    priority := congrArg Wanted.priority hw
    maxAttempts := congrArg Wanted.maxAttempts hw
    idempotencyKey := hkey.trans hkey'
    traceId := congrArg Wanted.traceId hw
    region := congrArg Wanted.region hw }

/-- **A task that has been posted is found.** A request has been answered with a task, among calls
that insert what engines have been asked for. Where it is answered with 201, the task is its own,
and is shown as the request has asked for; where it is answered with 200, the task is unfinished and
comes from a request with the same queue and key. Any request for that task that begins later, and
that the store answers, is answered with the task, in a later version. -/
theorem posted_task_found (display : RepoError → String)
    (h : Runs ok (.idle ∅ log n) os db) (h' : Runs ok' db ps d)
    (hissued : ∀ o ∈ os, ∀ c, o.op = some c → c.Issued)
    (hsubmit : e.submit id now (body.submission T traceparent) = .ok task)
    (hsave : (body.submission T traceparent).saveOp task = some op) (ho : o ∈ os)
    (hop : o.op = some ⟨a, op, none⟩) (hreply : o.reply = some (.ok x))
    (hx : x.submitted = some (record, created)) :
    ((createTaskReply display (.ok (record, created)) = .ok (201, .ofRecord record) ∧
        record.id = id ∧
        (TaskResponse.ofRecord record).Shows body (requestTraceId T traceparent)) ∨
      (createTaskReply display (.ok (record, created)) = .ok (200, .ofRecord record) ∧
        record.status.isTerminal = false ∧ body.idempotencyKey.isSome = true ∧
        ∃ s : Submission, s.Brings os record.id record.wanted record.idempotencyKey ∧
          s.queue = body.queue.getD "default" ∧ s.idempotencyKey = body.idempotencyKey)) ∧
      ∀ o' ∈ ps, ∀ sid', o'.sid? = some sid' → db.sessions.get sid' = none → ∀ a' x' found,
        o'.op = some ⟨a', .findById record.id, x'⟩ → o'.reply = some (.ok (.found found)) →
          ∃ record', getTaskReply display record.id (.ok found) = .ok (.ofRecord record') ∧
            Later record record' := by
  have hposted := h.posted hissued hsubmit hsave ho hop hreply hx
  obtain ⟨hqueue, hkey, -, -⟩ := CreateTaskRequest.submission_cases T traceparent body
  refine ⟨?_, fun o' ho' sid' hsid' hnew a' x' found hop' hreply' => ?_⟩
  · cases created with
    | true => exact .inl ⟨rfl, (hposted.own rfl).1, hposted.shows⟩
    | false =>
      obtain ⟨hterm, hsome⟩ := hposted.repeated rfl
      obtain ⟨s, hbrings, hsq, hsk⟩ := hposted.exists_brings
      rw [hkey] at hsome hsk
      rw [hqueue] at hsq
      exact .inr ⟨rfl, hterm, hsome, s, hbrings, hsq, hsk⟩
  · obtain ⟨record', rfl, hlater⟩ :=
      h.found_of_submitted h' ho hreply hx ho' hsid' hnew hop' hreply'
    exact ⟨record', rfl, hlater⟩

end Posts

/-! ## A run -/

/-- A request for an email, with a key. -/
def keyedBody : CreateTaskRequest :=
  ⟨none, "email", sampleJson, none, none, none, some "key", none⟩

/-- The first of two tasks with a key is looked up. -/
def fetchMoves : List Move := serve 3 (callOf (.findById ⟨1⟩)) 20 [.all]

/-- What the answers to the second submission of a key show. -/
def repeatedOf (o : Outcome) : Option (TaskRecord × Bool) :=
  if o.op = some (callOf (.saveIdempotent (sampleKeyed 2))) then
    (o.reply.bind Except.toOption).bind Response.submitted
  else none

/-- What the answers to a lookup of the first task find. -/
def fetched (o : Outcome) : Option (ℕ × Option TaskRecord) :=
  if o.op = some (callOf (.findById ⟨1⟩)) then
    match o.sid?, o.reply with
    | some sid, some (.ok (.found record)) => some (sid, record)
    | _, _ => none
  else none

theorem eq_of_repeatedOf {o : Outcome} {x : TaskRecord × Bool} (h : repeatedOf o = some x) :
    o.op = some (callOf (.saveIdempotent (sampleKeyed 2))) ∧
      ∃ r, o.reply = some (.ok r) ∧ r.submitted = some x := by
  unfold repeatedOf at h
  split at h
  next hop =>
    obtain ⟨r, hr, hx⟩ := Option.bind_eq_some_iff.mp h
    obtain ⟨reply, hreply, hr⟩ := Option.bind_eq_some_iff.mp hr
    cases reply with
    | error => cases hr
    | ok r' =>
      cases hr
      exact ⟨hop, r, hreply, hx⟩
  · cases h

theorem eq_of_fetched {o : Outcome} {sid : ℕ} {x : Option TaskRecord}
    (h : fetched o = some (sid, x)) :
    o.op = some (callOf (.findById ⟨1⟩)) ∧ o.sid? = some sid ∧
      o.reply = some (.ok (.found x)) := by
  unfold fetched at h
  split at h
  next hop =>
    split at h
    next hsid hreply =>
      cases h
      exact ⟨hop, hsid, hreply⟩
    · cases h
  · cases h

theorem exists_of_filterMap_eq {α β γ : Type} {f : α → Option β} {g : β → γ} {l : List α} {y : γ}
    (h : (l.filterMap f).map g = [y]) : ∃ x ∈ l, ∃ z, f x = some z ∧ g z = y := by
  have hmem : y ∈ (l.filterMap f).map g := h ▸ List.mem_singleton_self y
  obtain ⟨z, hz, hy⟩ := List.mem_map.mp hmem
  obtain ⟨x, hx, hf⟩ := List.mem_filterMap.mp hz
  exact ⟨x, hx, z, hf, hy⟩

/-- A second request with a key is answered with the task of the first, which is found after
that. -/
theorem repeated_post_found : ∃ (record record' : TaskRecord) (found : Option TaskRecord)
    (s : Submission), record.id = ⟨1⟩ ∧
      createTaskReply (fun _ => "") (.ok (record, false)) = .ok (200, .ofRecord record) ∧
      record.status.isTerminal = false ∧
      s.Brings (System.shown duplicateMoves) ⟨1⟩ record.wanted record.idempotencyKey ∧
      s.queue = "default" ∧ s.idempotencyKey = some "key" ∧
      getTaskReply (fun _ => "") ⟨1⟩ (.ok found) = .ok (.ofRecord record') ∧
      Later record record' := by
  have h : Runs (fun _ _ _ => True) .empty (System.shown duplicateMoves)
      (System.after duplicateMoves) :=
    Runs.of_moves _ (.of_forall (fun _ _ _ => trivial) ..) (by decide +kernel)
  have h' : Runs (fun _ _ _ => True) (System.after duplicateMoves)
      ((System.after duplicateMoves).resume fetchMoves).2 _ :=
    Runs.resume fetchMoves (.of_forall (fun _ _ _ => trivial) ..) (by decide +kernel)
  have hcalls : (System.shown duplicateMoves).filterMap Output.op =
      [callOf (.saveIdempotent (sampleKeyed 1)), callOf (.saveIdempotent (sampleKeyed 2))] := by
    decide +kernel
  have hsubmit : ∀ uuid, sampleEngine.submit ⟨uuid⟩ 0 (keyedBody.submission visibleAscii none) =
      .ok (sampleKeyed uuid) := fun _ => rfl
  have hissued : ∀ o ∈ System.shown duplicateMoves, ∀ c, o.op = some c → c.Issued := by
    intro o ho c hc task ht
    have hmem : c ∈ (System.shown duplicateMoves).filterMap Output.op :=
      List.mem_filterMap.mpr ⟨o, ho, hc⟩
    rw [hcalls] at hmem
    rcases List.mem_pair.mp hmem with rfl | rfl
    · obtain rfl := List.mem_singleton.mp ht
      exact ⟨sampleEngine, ⟨1⟩, 0, _, hsubmit 1, .enqueueRawIdempotent⟩
    · obtain rfl := List.mem_singleton.mp ht
      exact ⟨sampleEngine, ⟨2⟩, 0, _, hsubmit 2, .enqueueRawIdempotent⟩
  obtain ⟨o, ho, ⟨record, created⟩, hanswer, heq⟩ := exists_of_filterMap_eq
    (show ((System.shown duplicateMoves).filterMap repeatedOf).map (fun x => (x.1.id, x.2)) =
      [(⟨1⟩, false)] by decide +kernel)
  obtain ⟨hid, rfl⟩ := Prod.mk.inj heq
  obtain ⟨hop, x, hreply, hx⟩ := eq_of_repeatedOf hanswer
  obtain ⟨o', ho', ⟨sid, found⟩, hfetched, heq⟩ := exists_of_filterMap_eq
    (show (((System.after duplicateMoves).resume fetchMoves).2.filterMap fetched).map
      (fun x => (x.1, x.2.isSome)) = [(3, true)] by decide +kernel)
  obtain ⟨rfl, hsome⟩ := Prod.mk.inj heq
  obtain ⟨found, rfl⟩ := Option.isSome_iff_exists.mp hsome
  obtain ⟨hop', hsid', hreply'⟩ := eq_of_fetched hfetched
  have hnew : (System.after duplicateMoves).sessions.get 3 = none :=
    Option.isNone_iff_eq_none.mp (by decide +kernel)
  obtain ⟨hanswered, hlater⟩ := posted_task_found (fun _ => "") h h' hissued (hsubmit 2) rfl
    ho hop hreply hx
  obtain ⟨record', hget, hl⟩ := hlater o' ho' 3 hsid' hnew false none (some found)
    (hid.symm ▸ hop') hreply'
  rcases hanswered with ⟨hcreated, -⟩ | ⟨hrepeated, hterm, -, sub, hbrings, hqueue, hkey⟩
  · exact absurd (congrArg Prod.fst (Except.ok.inj hcreated)) (show (200 : ℕ) ≠ 201 by decide)
  · exact ⟨record, record', some found, sub, hid, hrepeated, hterm, hid ▸ hbrings, hqueue, hkey,
      hid ▸ hget, hl⟩

end IronDefer
