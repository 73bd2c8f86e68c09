import IronDefer.Infrastructure.Attempts
import IronDefer.Infrastructure.Idempotency
import IronDefer.RowStore.Lockstep

/-!
# The race for a key

An idempotent submission inserts its task or finds a conflict, and looks for the conflicting task in
a second statement. Where that task has finished in between and the key has not been taken again,
nothing is found: the pooled submission then says that its own task is not in the expected state,
the one inside a caller's transaction reports a storage error. Otherwise both return the same.

## Main definitions

* `Submitted`: a submission has inserted its task, or found an unfinished one with its key
* `FallbackFinds`: the second statement finds a task
* `Call.Variant`, `SameReply`: a submission of its own and the same one inside a transaction

## Main results

* `submissions_race_free`: **where every second statement finds a task**, submissions return their
  task or the one that has the key, and both variants the same
* `conflicting_task_finished`: the race that both variants lose, with different errors
-/

namespace IronDefer

open RowStore

/-- A submission has inserted its task, one row, and returns its record; or it has inserted nothing
and returns the record of an unfinished task with its key. -/
def Submitted (task : TaskRecord) (cs : List (Change TaskRow)) (reply : Reply) : Prop :=
  (∃ row record, cs = [⟨none, row⟩] ∧ record.id = task.id ∧ TaskRecord.tryFrom row = .ok record ∧
    reply = .ok (.saved record true)) ∨
  (cs = [] ∧ ∃ row record, isActive task.queue.asStr task.idempotencyKey row = true ∧
    TaskRecord.tryFrom row = .ok record ∧ reply = .ok (.saved record false))

/-- The second statement of an idempotent submission finds an unfinished task with the key, and can
read it. -/
def FallbackFinds (db : System) : Move → Prop
  | .exec sid _ => ∀ s ∈ db.sessions.rows, s.id = sid →
      match s.rest with
      | .stmt (.selectActive queue key) _ =>
        (∃ r ∈ (db.view s).rows, isActive queue key r = true) ∧
          ∀ r ∈ (db.view s).rows, isActive queue key r = true → r.Decodes
      | _ => True
  | .start .. | .fault _ | .finish _ => True

instance (db : System) : (ev : Move) → Decidable (FallbackFinds db ev)
  | .exec sid e =>
    have (s : Session Stmt Stmt.Res Call Began TaskRow AuditRow Reply) : Decidable (
        match s.rest with
        | .stmt (.selectActive queue key) _ =>
          (∃ r ∈ (db.view s).rows, isActive queue key r = true) ∧
            ∀ r ∈ (db.view s).rows, isActive queue key r = true → r.Decodes
        | _ => True) := by
      split <;> infer_instance
    inferInstanceAs (Decidable (∀ s ∈ db.sessions.rows, s.id = sid → _))
  | .start .. | .fault _ | .finish _ => .isTrue trivial

/-- The runs of submissions by the scheduler whose second statements find a task. -/
def KeyStands (os : List Outcome) (db : System) (ev : Move) : Prop :=
  Enqueuing os db ev ∧ FallbackFinds db ev

/-! ## What a submission replies -/

/-- The rows a submission obtains can be read, and its second statement has found one. -/
def Stmt.Finds : (q : Stmt) → q.Res → Prop
  | .insertTask .., r => ∀ row, r = some row → row.Decodes
  | .selectActive .., r => ∃ row, r = some row ∧ row.Decodes
  | .update _, _ | .selectById _, _ | .insertAudit .., _ => True

/-- A task has been saved. -/
def Saved (reply : Reply) : Prop := ∃ record created, reply = .ok (.saved record created)

/-- An idempotent submission has saved its task or found one. -/
def TxCall.Found (call : TxCall) (reply : Reply) : Prop :=
  ∀ task, call = .saveIdempotentInTx task → Saved reply

/-- The idempotent submissions of an operation have saved their tasks or found some. -/
def Op.Found (op : Op) (fin : Finish Reply) : Prop :=
  (∀ task, op = .saveIdempotent task → Saved fin.reply) ∧
  ∀ calls commit, op = .inTx calls commit → ∃ replies, fin.reply = .ok (.batch replies) ∧
    List.Forall₂ TxCall.Found calls replies

theorem saved_of_decodes {row : TaskRow} (h : row.Decodes) (created : Bool) :
    Saved ((TaskRecord.tryFrom row).map (.saved · created)) := by
  rw [tryFrom_of_decodes h]
  exact ⟨_, _, rfl⟩

theorem endsIn_saveIdempotent (a : Bool) (task : TaskRecord) :
    (saveIdempotent a task).EndsIn Stmt.Finds (Op.Found (.saveIdempotent task)) := by
  have hfound : ∀ row : TaskRow, row.Decodes → ∀ created, Op.Found (.saveIdempotent task)
      (.commit ((TaskRecord.tryFrom row).map (.saved · created))) :=
    fun row hrow created => ⟨fun _ _ => saved_of_decodes hrow created, by simp⟩
  intro r hr
  cases r with
  | some row =>
    apply Program.endsIn_bind_of_forall (p := auditCreated a row)
    exact fun _ => hfound row (hr row rfl) true
  | none =>
    rintro r ⟨row, rfl, hrow⟩
    exact hfound row hrow false

theorem endsIn_call (a : Bool) (call : TxCall) :
    (call.program a).EndsIn Stmt.Finds call.Found := by
  cases call with
  | saveInTx task => exact Program.endsIn_of_forall (fun _ _ hc => by cases hc) _
  | saveIdempotentInTx task =>
    intro r hr
    cases r with
    | some row =>
      apply Program.endsIn_bind_of_forall (p := auditCreated a row)
      exact fun _ _ _ => saved_of_decodes (hr row rfl) true
    | none =>
      rintro r ⟨row, rfl, hrow⟩
      exact fun _ _ => saved_of_decodes hrow false

/-- The calls inside a transaction end well one by one. -/
theorem endsIn_runCalls {a : Bool} {allowed : (q : Stmt) → q.Res → Prop} {P : TxCall → Reply → Prop}
    (h : ∀ call : TxCall, (call.program a).EndsIn allowed (P call)) (calls : List TxCall) :
    (runCalls a calls).EndsIn allowed (List.Forall₂ P calls) := by
  induction calls with
  | nil => exact .nil
  | cons call calls ih =>
    refine Program.endsIn_bind.mpr ((h call).mono fun reply hreply => ?_)
    exact Program.endsIn_bind.mpr (ih.mono fun replies hreplies => .cons hreply hreplies)

/-- Where its statements find rows that can be read, an operation has saved its tasks or found
some. -/
theorem Op.endsIn (op : Op) (a : Bool) : (op.program a).EndsIn Stmt.Finds op.Found := by
  cases op with
  | saveIdempotent task => exact endsIn_saveIdempotent a task
  | inTx calls commit =>
    refine Program.endsIn_bind.mpr
      ((endsIn_runCalls (endsIn_call a) calls).mono fun replies hreplies => ?_)
    cases commit <;> exact ⟨by simp, by rintro _ _ ⟨⟩; exact ⟨replies, rfl, hreplies⟩⟩
  | _ => exact Program.endsIn_of_forall (fun _ => ⟨by simp, by simp⟩) _

/-! ## Audit writes -/

/-- What a statement with the result has written. -/
def Stmt.written : (q : Stmt) → q.Res → List TaskRow
  | .insertTask .., r => r.toList
  | .update _, rs => rs
  | .selectById _, _ | .selectActive .., _ | .insertAudit .., _ => []

theorem news_of_exec {q : Stmt} {b : Began} {e : Env} {rows : List TaskRow} {free : TaskId → Bool}
    {eff : Effect TaskRow AuditRow q.Res} (h : postgres.exec q b e rows free = .ok eff) :
    eff.news = q.written eff.result := by
  cases q with
  | insertTask =>
    obtain ⟨r, -, h⟩ := exists_of_bind_ok h
    cases h
    rfl
  | update =>
    obtain ⟨rs, -, h⟩ := exists_of_bind_ok h
    cases h
    rfl
  | selectById | selectActive =>
    cases h
    rfl
  | insertAudit =>
    simp only [postgres, execStmt] at h
    split at h
    · cases h
      rfl
    · cases h

/-- The tasks an operation inserts without looking for a conflict. -/
def Op.plainTasks : Op → List TaskRecord
  | save task => [task]
  | inTx calls _ => calls.filterMap fun
    | .saveInTx task => some task
    | .saveIdempotentInTx _ => none
  | _ => []

/-- Every audit write is about a row written before, and only `plain` tasks are inserted without
looking for a conflict; `news` are the rows written so far. -/
def AuditsOwn {α : Type} (plain : List TaskRecord) : List TaskRow → Tx α → Prop
  | _, .pure _ | _, .unwind => True
  | news, .stmt q k =>
    (∀ id fs ts w t m r, q = .insertAudit id fs ts w t m r → ∃ v ∈ news, v.id = id) ∧
      (∀ task e, q = .insertTask task e false → task ∈ plain) ∧
      ∀ r, AuditsOwn plain (news ++ q.written r) (k r)

variable {plain : List TaskRecord} {news : List TaskRow}

theorem auditsOwn_bind {α β : Type} {p : Tx α} {f : α → Tx β} (hp : AuditsOwn plain news p)
    (hf : ∀ a more, AuditsOwn plain (news ++ more) (f a)) : AuditsOwn plain news (p >>= f) := by
  induction p generalizing news with
  | pure a => simpa using hf a []
  | unwind => trivial
  | stmt q k ih =>
    refine ⟨hp.1, hp.2.1, fun r => ih r (hp.2.2 r) fun a more => ?_⟩
    rw [List.append_assoc]
    exact hf a _

theorem auditsOwn_auditCreated {a : Bool} {row : TaskRow} (h : row ∈ news) :
    AuditsOwn plain news (auditCreated a row) := by
  have hone : ∀ fs ts w t m r, AuditsOwn plain news (exec (.insertAudit row.id fs ts w t m r)) := by
    refine fun fs ts w t m r => ⟨?_, by simp, fun _ => trivial⟩
    rintro _ _ _ _ _ _ _ ⟨⟩
    exact ⟨row, h, rfl⟩
  unfold auditCreated insertAuditRow
  split
  · split
    · trivial
    · exact hone ..
    · exact hone ..
  · trivial

/-- A row that has been inserted gets its audit row, and is returned. -/
theorem auditsOwn_created {α : Type} {a : Bool} {row : TaskRow} {x : α} (h : row ∈ news) :
    AuditsOwn plain news (auditCreated a row >>= fun _ => .pure x) :=
  auditsOwn_bind (auditsOwn_auditCreated h) fun _ _ => trivial

theorem auditsOwn_call (a : Bool) {call : TxCall}
    (h : ∀ task, call = .saveInTx task → task ∈ plain) :
    AuditsOwn plain news (call.program a) := by
  cases call with
  | saveInTx task =>
    refine ⟨by simp, ?_, fun r => ?_⟩
    · rintro _ _ ⟨⟩
      exact h task rfl
    cases r with
    | none => trivial
    | some row =>
      exact auditsOwn_created (by simp [Stmt.written])
  | saveIdempotentInTx task =>
    refine ⟨by simp, by simp, fun r => ?_⟩
    cases r with
    | none =>
      refine ⟨by simp, by simp, fun r => ?_⟩
      cases r <;> trivial
    | some row =>
      exact auditsOwn_created (by simp [Stmt.written])

theorem auditsOwn_runCalls (a : Bool) {calls : List TxCall}
    (h : ∀ task, .saveInTx task ∈ calls → task ∈ plain) :
    AuditsOwn plain news (runCalls a calls) := by
  induction calls generalizing news with
  | nil => trivial
  | cons call calls ih =>
    refine auditsOwn_bind (auditsOwn_call a ?_) fun reply more => ?_
    · rintro task rfl
      exact h task List.mem_cons_self
    · exact auditsOwn_bind (ih fun task ht => h task (List.mem_cons_of_mem _ ht)) fun _ _ => trivial

/-- A submission writes audit rows about the rows it has inserted only. -/
theorem Op.auditsOwn {op : Op} {task : TaskRecord} (ht : task ∈ op.tasks) (a : Bool) :
    AuditsOwn op.plainTasks [] (op.program a) := by
  -- an audit row follows its insert, and a task that was found gets none
  cases op with
  | save task =>
    refine ⟨by simp, ?_, fun r => ?_⟩
    · rintro _ _ ⟨⟩
      exact List.mem_cons_self
    cases r with
    | none => trivial
    | some row =>
      exact auditsOwn_created (by simp [Stmt.written])
  | saveIdempotent task =>
    refine ⟨by simp, by simp, fun r => ?_⟩
    cases r with
    | none =>
      refine ⟨by simp, by simp, fun r => ?_⟩
      cases r <;> trivial
    | some row =>
      exact auditsOwn_created (by simp [Stmt.written])
  | inTx calls commit =>
    refine auditsOwn_bind (auditsOwn_runCalls a fun task ht => ?_) fun replies _ => ?_
    · exact List.mem_filterMap.mpr ⟨_, ht, rfl⟩
    · cases commit <;> trivial
  | _ => cases ht

/-! ## Submissions -/

section Submissions

variable {rely : Table TaskRow.id → (TaskId → Bool) → Env → Prop} {b : Began}
  {cs ds : List (Change TaskRow)}

theorem SavedBy.submitted {task : TaskRecord} {xs : List AuditEntry} {res : Option (TaskRow × Bool)}
    {gone : RepoError} (h : SavedBy rely b cs task true ds xs res)
    (hsaved : Saved (savedReply gone res)) : Submitted task ds (savedReply gone res) := by
  obtain ⟨record, created, hreply⟩ := hsaved
  rw [hreply]
  cases h with
  | gone => cases hreply
  | new hrow =>
    obtain ⟨t, e, free, -, -, hins⟩ := hrow
    obtain ⟨rfl, -, -⟩ := execInsert_eq_some hins
    obtain ⟨record', hrec, hsame⟩ := eq_of_map_eq_ok hreply
    cases hsame
    obtain ⟨hd, rfl⟩ := tryFrom_eq_ok_iff.mp hrec
    exact .inl ⟨_, TaskRow.record _ hd, rfl, rfl, hrec, rfl⟩
  | old _ hsel =>
    obtain ⟨t, e, free, -, -, hfind⟩ := hsel
    obtain ⟨record', hrec, hsame⟩ := eq_of_map_eq_ok hreply
    cases hsame
    exact .inr ⟨rfl, _, _, List.find?_some hfind, hrec, rfl⟩

/-- The calls of a transaction have been submitted one by one: each has inserted its part of the
rows, and has its reply. -/
def SubmittedAll (calls : List TxCall) (cs : List (Change TaskRow)) (replies : List Reply) : Prop :=
  ∃ parts : List (List (Change TaskRow) × Reply), cs = parts.flatMap Prod.fst ∧
    replies = parts.map Prod.snd ∧ List.Forall₂ (fun call part =>
      ∀ task, call = .saveIdempotentInTx task → Submitted task part.1 part.2) calls parts

theorem CalledAll.submitted {calls : List TxCall} {xs : List AuditEntry} {replies : List Reply}
    (h : CalledAll rely b cs calls ds xs replies)
    (hfound : List.Forall₂ TxCall.Found calls replies) : SubmittedAll calls ds replies := by
  induction h with
  | nil => exact ⟨[], rfl, rfl, .nil⟩
  | @cons cs call calls ds es xs ys reply replies hcall _ ih =>
    obtain ⟨hfirst, hrest⟩ := List.forall₂_cons.mp hfound
    obtain ⟨parts, rfl, rfl, hparts⟩ := ih hrest
    refine ⟨(ds, reply) :: parts, rfl, rfl, .cons ?_ hparts⟩
    rintro task rfl
    cases hcall with
    | saveIdempotentInTx hsaved => exact hsaved.submitted (hfirst task rfl)

end Submissions

section Runs

variable {os : List Outcome} {db : System}

/-- The statements of such a run find rows that can be read. -/
theorem Runs.found (h : Runs KeyStands .empty os db) :
    ∀ o ∈ os, Output.Meets (fun call _ _ _ fin => call.op.Found fin) (fun _ => True) o := by
  refine Reaches.endsIn (T := fun call _ q => call.op.Enqueues ∧ call.op.Sends q) Stmt.Finds
    (fun call _ fin => call.op.Found fin) rfl
    (fun _ _ _ call _ hok => (call.op.program_all call.auditLog).mono fun q hq => ⟨hok.1, hq⟩)
    (fun _ _ _ call _ _ => call.op.endsIn call.auditLog) ?_ h
  intro os db s e q k eff hok hs hrest hT he
  cases q with
  | insertTask task lastError idempotent =>
    rintro row hrow
    obtain ⟨r, hins, heff⟩ := exists_of_bind_ok he
    cases heff
    obtain rfl : r = some row := hrow
    obtain ⟨rfl, -, -⟩ := execInsert_eq_some hins
    have hfresh := (hT.1 task hT.2).fresh
    apply (insertedRow_valid ..).decodes
    change task.attempts.get.val ≤ task.maxAttempts.get.val
    rw [hfresh.attempts]
    exact Int.le_trans (by decide) task.maxAttempts.pos
  -- the second statement is executed where it finds an active task
  | selectActive queue key =>
    have hfinds := hok.2 s hs rfl
    rw [hrest] at hfinds
    obtain ⟨⟨r, hr, hact⟩, hall⟩ := hfinds
    cases he
    obtain ⟨row, hrow⟩ := Option.isSome_iff_exists.mp (List.find?_isSome.mpr ⟨r, hr, hact⟩)
    exact ⟨row, hrow, hall row (List.mem_of_find?_eq_some hrow) (List.find?_some hrow)⟩
  | _ => trivial

/-- **What a submission is refused for**: its values, its id, which a row has already, or its key
where it does not look for a conflict. -/
theorem Runs.submission_refused {ok : List Outcome → System → Move → Prop}
    (h : Runs ok .empty os db) (henq : ∀ os db sid call b, ok os db (.start sid call b) →
      call.op.Enqueues) {sid : ℕ} {call : Call} {err : SqlError}
    (ho : .failed sid call (some err) ∈ os) {task : TaskRecord} (ht : task ∈ call.op.tasks) :
    err.ofValue = true ∨ err = .primaryKey ∨
      (err = .idempotencyIndex ∧ ∃ task ∈ call.op.plainTasks, task.idempotencyKey.isSome) := by
  obtain ⟨os', db', s, q, k, e, hr, hs, rfl, hrest, he⟩ := Reaches.of_failed h ho
  have hsends := Runs.sends hr s hs
  rw [hrest, Program.all_stmt] at hsends
  have hleft := (Reaches.programs (P := fun call _ news p => call.op.Enqueues ∧
      ((∃ task, task ∈ call.op.tasks) → AuditsOwn call.op.plainTasks news p))
    (fun s hs => by simp [System.empty, Db.idle] at hs)
    (fun _ _ _ call _ hok => ⟨henq _ _ _ _ _ hok, fun ⟨_, ht⟩ => Op.auditsOwn ht call.auditLog⟩)
    (fun _ _ s _ q k eff _ _ _ hP he => ⟨hP.1, fun ht => by
      rw [news_of_exec he]
      exact (hP.2 ht).2.2 eff.result⟩) hr).1 s hs
  obtain ⟨hfresh, howns⟩ := hleft
  rw [hrest] at howns
  obtain ⟨haudits, hplain, -⟩ := howns ⟨task, ht⟩
  have hupdates := Op.updates_of_tasks ht
  generalize hview : (db'.view s).rows = rows at he
  cases refused_of_exec he with
  | value hv => exact .inl hv
  | primaryKey => exact .inr (.inl rfl)
  | foreignKey =>
    -- the audited row is one the transaction has just inserted
    obtain ⟨v, hv, hid⟩ := haudits _ _ _ _ _ _ _ rfl
    obtain ⟨w, hw, hkey⟩ := Table.exists_mem_putAll db'.table hv
    simp only [postgres, execStmt] at he
    rw [if_pos (List.any_eq_true.mpr ⟨w, hview ▸ hw, decide_eq_true (hkey.trans hid)⟩)] at he
    cases he
  | insertClaim hne =>
    have hf := (hfresh _ hsends.1).fresh
    simp [insertedRow, hf.claimedBy, hf.claimedUntil] at hne
  | @insertIndex task' _ w _ hc =>
    refine .inr (.inr ⟨rfl, task', hplain _ _ rfl, ?_⟩)
    have hindex := hc.2
    unfold idempotencyIndex at hindex
    split at hindex
    · exact absurd rfl hindex
    · rw [Option.isSome_iff_ne_none]
      exact fun hnone => hindex (Option.map_eq_none_iff.mpr hnone)
  | updateClaim | updateIndex => simp [Op.Sends, hupdates] at hsends

/-- What a submission has changed and replied. -/
def Op.Submits (op : Op) (cs : List (Change TaskRow)) (reply : Reply) : Prop :=
  (∀ task, op = .saveIdempotent task → Submitted task cs reply) ∧
  ∀ calls commit, op = .inTx calls commit →
    ∃ replies, reply = .ok (.batch replies) ∧ SubmittedAll calls cs replies

theorem Op.Spec.submits {a : Bool} {rely : Table TaskRow.id → (TaskId → Bool) → Env → Prop}
    {b : Began} {op : Op} {cs : List (Change TaskRow)} {ls : List AuditRow} {fin : Finish Reply}
    (h : Op.Spec rely a b op cs ls fin) (hfound : op.Found fin) : op.Submits cs fin.reply := by
  refine ⟨?_, ?_⟩
  · rintro task rfl
    have hsaved := hfound.1 task rfl
    cases h with
    | saveIdempotent hby => exact hby.submitted hsaved
    | refused href => cases href.transition.1
    | transition htr => cases htr
  · rintro calls commit rfl
    obtain ⟨replies, hreply, hall⟩ := hfound.2 calls commit rfl
    refine ⟨replies, hreply, ?_⟩
    cases h with
    | inTxCommit hcalled | inTxRollback hcalled =>
      cases hreply
      exact hcalled.submitted hall
    | refused href => cases href.transition.1
    | transition htr => cases htr

theorem Runs.submits (h : Runs KeyStands .empty os db) :
    ∀ o ∈ os, Output.Meets (fun call _ cs _ fin => call.op.Submits cs fin.reply) (fun _ => True) o := by
  intro o ho
  have hspec := h.spec_idle o ho
  have hfound := Runs.found h o ho
  cases o with
  | committed sid call b cs ls r => exact fun hid => Op.Spec.submits (hspec hid) (hfound hid)
  | returned sid call b r =>
    intro hid
    obtain ⟨cs, ls, hret⟩ := hspec hid
    obtain ⟨-, -, hops⟩ := hfound hid
    exact ⟨cs, ls, hret.submits hops⟩
  | _ => trivial

end Runs

/-! ## Both variants on one schedule -/

/-- The same call, or a submission of its own and the same one inside a caller's transaction. -/
inductive Call.Variant : Call → Call → Prop
  | same {c} : Variant c c
  | inTx {a task x} :
      Variant ⟨a, .saveIdempotent task, x⟩ ⟨a, .inTx [.saveIdempotentInTx task] true, x⟩

/-- The replies of two variants to one outcome of the submission. -/
inductive VariantReply : Call → Call → Reply → Reply → Prop
  | same {c r} : VariantReply c c r r
  | inTx {a task x} (res : Option (TaskRow × Bool)) :
      VariantReply ⟨a, .saveIdempotent task, x⟩ ⟨a, .inTx [.saveIdempotentInTx task] true, x⟩
        (savedReply (.notInExpectedState task.id "non-terminal") res)
        (.ok (.batch [savedReply (conflictGone task) res]))

theorem Call.Variant.program_alike {c c' : Call} (h : c.Variant c') :
    c.program.Alike (Finish.Alike (VariantReply c c')) c'.program := by
  cases h with
  | same =>
    refine .refl (fun fin => ?_) _
    cases fin with
    | commit r => exact .commit .same
    | rollback r => exact .rollback .same
  | @inTx a task x =>
    apply Program.Alike.stmt
    intro r
    cases r with
    | some row =>
      -- past the insert, both write the audit row and reply
      let reply : Reply := (TaskRecord.tryFrom row).map (.saved · true)
      change Program.Alike _ (auditCreated a row >>= fun _ => Program.pure (Finish.commit reply))
        (((auditCreated a row >>= fun _ => Program.pure reply) >>= fun reply =>
          Program.pure [reply]) >>= fun replies =>
            Program.pure (Finish.commit (Except.ok (Response.batch replies))))
      rw [Program.bind_assoc, Program.bind_assoc]
      exact Program.Alike.bind _ fun _ => .pure (.commit (.inTx (some (row, true))))
    | none =>
      apply Program.Alike.stmt
      intro r
      cases r with
      | some row => exact .pure (.commit (.inTx (some (row, false))))
      | none => exact .pure (.commit (.inTx none))

/-- The same reply, inside the transaction as the only one of a batch. -/
inductive SameReply : Call → Call → Reply → Reply → Prop
  | same {c r} : SameReply c c r r
  | inTx {a task x r} :
      SameReply ⟨a, .saveIdempotent task, x⟩ ⟨a, .inTx [.saveIdempotentInTx task] true, x⟩ r
        (.ok (.batch [r]))

theorem VariantReply.sameReply {c c' : Call} {r r' : Reply} (h : VariantReply c c' r r')
    (hsaved : ∀ task, c.op = .saveIdempotent task → Saved r) : SameReply c c' r r' := by
  cases h with
  | same => exact .same
  | inTx res =>
    cases res with
    | some x => exact .inTx
    | none =>
      obtain ⟨_, _, hr⟩ := hsaved _ rfl
      cases hr

/-- The outputs of related schedules, the first of which finds its tasks. -/
theorem sameReplies {o o' : Outcome} (h : Output.Alike Call.Variant VariantReply o o')
    (hfound : Output.Meets (fun call _ _ _ fin => call.op.Found fin) (fun _ => True) o) :
    Output.Alike Call.Variant SameReply o o' := by
  cases h with
  | silent => exact .silent
  | failed hv => exact .failed hv
  | returned hv hr =>
    obtain ⟨-, -, hops⟩ := hfound trivial
    exact .returned hv (hr.sameReply hops.1)
  | committed hv hr => exact .committed hv (hr.sameReply (hfound trivial).1)

/-- **On one schedule, both variants do the same and reply the same.** -/
theorem shown_alike {evs evs' : List Move} (hevs : List.Forall₂ (Event.Alike Call.Variant) evs evs')
    (hok : Admitted System.step KeyStands [] .empty evs)
    (hrun : (run System.step .empty evs).isSome) :
    List.Forall₂ (Output.Alike Call.Variant SameReply) (System.shown evs) (System.shown evs') := by
  have hfound := Runs.found (Runs.of_moves evs hok hrun)
  have halike : Option.Rel (fun x y => x.1.Alike Call.Variant VariantReply y.1 ∧
      List.Forall₂ (Output.Alike Call.Variant VariantReply) x.2 y.2)
      (run System.step .empty evs) (run System.step .empty evs') :=
    (Db.alike_idle ∅ [] 1).run (fun _ _ hv => hv.program_alike) hevs
  rw [System.shown, System.resume] at hfound
  rw [System.shown, System.shown, System.resume, System.resume]
  generalize run System.step .empty evs = x at halike hfound
  generalize run System.step .empty evs' = y at halike
  cases halike with
  | none => exact .nil
  | some hxy =>
    apply ((List.forall₂_and_left _ _).mpr ⟨hfound, hxy.2⟩).imp
    exact fun _ _ h => sameReplies h.2 h.1

/-- **Submissions are free of races where every second statement finds a task.** In every run of
submissions by the scheduler with any other operations, in any interleaving: an idempotent
submission that is not refused a statement inserts its task and returns it, or inserts nothing and
returns the task that has its key, alone and inside a transaction of the caller; statements are
refused for a value, a used id, or a plain save of a used key, never for anything else. On one
schedule, the submission on its own and the one inside a transaction show the same changes and
replies. -/
theorem submissions_race_free (evs : List Move)
    (hok : Admitted System.step KeyStands [] .empty evs)
    (hrun : (run System.step .empty evs).isSome) :
    (∀ o ∈ System.shown evs,
      Output.Meets (fun call _ cs _ fin => call.op.Submits cs fin.reply) (fun _ => True) o) ∧
    (∀ sid call err, .failed sid call (some err) ∈ System.shown evs → ∀ task ∈ call.op.tasks,
      err.ofValue = true ∨ err = .primaryKey ∨
        (err = .idempotencyIndex ∧ ∃ task ∈ call.op.plainTasks, task.idempotencyKey.isSome)) ∧
    ∀ evs', List.Forall₂ (Event.Alike Call.Variant) evs evs' →
      List.Forall₂ (Output.Alike Call.Variant SameReply) (System.shown evs) (System.shown evs') := by
  have h : Runs KeyStands .empty (System.shown evs) (System.after evs) :=
    Runs.of_moves evs hok hrun
  refine ⟨Runs.submits h, ?_, fun evs' hsame => shown_alike hsame hok hrun⟩
  intro sid call err ho task ht
  exact Runs.submission_refused h (fun _ _ _ _ _ hstands => hstands.1) ho ht

/-! ## The race -/

/-- The status code the HTTP layer answers an error with, and its error code. -/
def RepoError.statusCode : RepoError → ℕ × String
  | .notFound _ => (404, "TASK_NOT_FOUND")
  | .invalidPayload _ => (422, "INVALID_PAYLOAD")
  | .notInExpectedState .. => (409, "TASK_NOT_IN_EXPECTED_STATE")
  | .storage _ => (500, "INTERNAL_ERROR")

/-- The errors in a reply, those of a batch included. -/
def Outcome.errors (o : Outcome) : List RepoError :=
  match o.reply with
  | some (.error e) => [e]
  | some (.ok (.batch replies)) => replies.filterMap fun
    | .error e => some e
    | .ok _ => none
  | _ => []

/-- The sample key is submitted twice, the second time through `op`; between the two statements of
the second submission, `between` happens. -/
def raceMoves (op : Op) (between : List Move) : List Move :=
  serve 1 (callOf (.saveIdempotent (sampleKeyed 1))) 0 [.all] ++
  [.start 2 (callOf op) ⟨10⟩, .exec 2 .all] ++ between ++ [.exec 2 .all, .finish 2]

theorem enqueues_of_savesOnly {uuid uuid' : ℕ} {c : Call}
    (h : c.SavesOnly [sampleKeyed uuid, sampleKeyed uuid']) : c.op.Enqueues := by
  intro task ht
  have hmem := h task ht
  rcases List.mem_cons.mp hmem with rfl | hmem
  · exact ⟨_, _, enqueuedAt_sampleKeyed uuid⟩
  · rw [List.mem_singleton] at hmem
    exact hmem ▸ ⟨_, _, enqueuedAt_sampleKeyed uuid'⟩

/-- Nothing happens to the conflicting task: the second submission returns it, in both variants. -/
theorem conflicting_task_found :
    (∀ o ∈ System.shown (raceMoves (.saveIdempotent (sampleKeyed 2)) []),
      Output.Meets (fun call _ cs _ fin => call.op.Submits cs fin.reply) (fun _ => True) o) ∧
    List.Forall₂ (Output.Alike Call.Variant SameReply)
      (System.shown (raceMoves (.saveIdempotent (sampleKeyed 2)) []))
      (System.shown (raceMoves (.inTx [.saveIdempotentInTx (sampleKeyed 2)] true) [])) := by
  have hok : Admitted System.step (fun os db ev =>
      Calls (Call.SavesOnly [sampleKeyed 1, sampleKeyed 2]) os db ev ∧ FallbackFinds db ev) [] .empty
      (raceMoves (.saveIdempotent (sampleKeyed 2)) []) := by decide +kernel
  have hstands : Admitted System.step KeyStands [] .empty _ :=
    hok.mono fun _ _ _ hev => ⟨hev.1.mono fun _ => enqueues_of_savesOnly, hev.2⟩
  have hsame : ∀ ev : Move, Event.Alike Call.Variant ev ev := by
    rintro (_ | _ | _ | _)
    · exact .start .same
    · exact .exec
    · exact .fault
    · exact .finish
  obtain ⟨hsubmits, -, halike⟩ := submissions_race_free _ hstands (by decide +kernel)
  refine ⟨hsubmits, halike _ ?_⟩
  exact .cons (hsame _) (.cons (hsame _) (.cons (hsame _) (.cons (.start .inTx)
    (.cons (hsame _) (.cons (hsame _) (.cons (hsame _) .nil))))))

/-- **The conflicting task finishes between the statements of a submission**: it is cancelled, and
neither variant returns a task; they report different errors, of different classes. -/
theorem conflicting_task_finished :
    let cancelled := serve 3 (callOf (.cancel ⟨1⟩)) 20 [.all, .all]
    let pooled := raceMoves (.saveIdempotent (sampleKeyed 2)) cancelled
    let inTx := raceMoves (.inTx [.saveIdempotentInTx (sampleKeyed 2)] true) cancelled
    Runs Enqueuing .empty (System.shown pooled) (System.after pooled) ∧
    Runs Enqueuing .empty (System.shown inTx) (System.after inTx) ∧
    (System.shown pooled).flatMap Outcome.errors = [.notInExpectedState ⟨2⟩ "non-terminal"] ∧
    (System.shown inTx).flatMap Outcome.errors = [conflictGone (sampleKeyed 2)] ∧
    RepoError.statusCode (.notInExpectedState ⟨2⟩ "non-terminal") =
      (409, "TASK_NOT_IN_EXPECTED_STATE") ∧
    (conflictGone (sampleKeyed 2)).statusCode = (500, "INTERNAL_ERROR") ∧
    (System.after pooled).table.rows.map (fun r => (r.id, r.status)) = [(⟨1⟩, .cancelled)] ∧
    (System.after inTx).table.rows.map (fun r => (r.id, r.status)) = [(⟨1⟩, .cancelled)] := by
  have hruns : ∀ evs, Admitted System.step (Calls (Call.SavesOnly [sampleKeyed 1, sampleKeyed 2])) []
      .empty evs → (run System.step .empty evs).isSome →
      Runs Enqueuing .empty (System.shown evs) (System.after evs) := fun evs hok hrun =>
    (Runs.of_moves evs hok hrun).calls_mono fun _ => enqueues_of_savesOnly
  refine ⟨hruns _ ?_ ?_, hruns _ ?_ ?_, ?_, ?_, rfl, rfl, ?_, ?_⟩
  all_goals decide +kernel

end IronDefer
