import IronDefer.Domain.Lifecycle
import IronDefer.Infrastructure.Specs

/-!
# The history of a task

The committed changes of one task in commit order, each with the call that made it. They lead from
the row the run has started with to the current one, no commit changes a task twice, and seen as
`Life`s of a task they are a path of its life cycle: the database refines the automaton.

## Main definitions

* `Calls`: the runs all of whose calls satisfy a predicate
* `Entry`, `history`: a committed change with its call, and those of one task
* `TaskRow.life`, `Op.action`: the abstraction of rows and changes

## Main results

* `Runs.committed_step`: a step changes a task by at most one entry
* `Runs.column`: what a column of a task holds is what has last been shown for it
* `Runs.caused`: every entry is a change its call can make
* `Runs.path`: **the history of a task is a path of its life cycle**
-/

namespace IronDefer

open RowStore

/-! ## Runs of given calls -/

/-- Every call satisfies `P`. -/
def Calls (P : Call → Prop) (_ : List Outcome) (_ : System) (ev : Move) : Prop :=
  match ev with
  | .start _ call _ => P call
  | .exec .. | .fault _ | .finish _ => True

instance (P : Call → Prop) [DecidablePred P] (os : List Outcome) (db : System) :
    (ev : Move) → Decidable (Calls P os db ev)
  | .start _ call _ => inferInstanceAs (Decidable (P call))
  | .exec .. | .fault _ | .finish _ => .isTrue trivial

theorem Calls.mono {P Q : Call → Prop} (hPQ : ∀ c, P c → Q c) {os : List Outcome} {db : System}
    {ev : Move} (h : Calls P os db ev) : Calls Q os db ev := by
  cases ev with
  | start => exact hPQ _ h
  | _ => trivial

theorem Runs.calls_mono {P Q : Call → Prop} (hPQ : ∀ c, P c → Q c) {db₀ db : System}
    {os : List Outcome} (h : Runs (Calls P) db₀ os db) : Runs (Calls Q) db₀ os db :=
  Reaches.mono (fun _ _ _ => Calls.mono hPQ) h

/-- The moves of an admitted call. -/
theorem Calls.serve {P : Call → Prop} {sid : ℕ} {call : Call} {now : Timestamp} {es : List Env}
    (h : P call) (os : List Outcome) (db : System) :
    ∀ ev ∈ IronDefer.serve sid call now es, Calls P os db ev := by
  refine List.forall_mem_cons.mpr
    ⟨h, List.forall_mem_append.mpr ⟨fun ev hev => ?_, fun ev hev => ?_⟩⟩
  · obtain ⟨e, -, rfl⟩ := List.mem_map.mp hev
    trivial
  · obtain rfl := List.mem_singleton.mp hev
    trivial

/-- Every task a call may insert is one of `tasks`. -/
def Call.SavesOnly (tasks : List TaskRecord) (c : Call) : Prop := ∀ task ∈ c.op.tasks, task ∈ tasks

instance (tasks : List TaskRecord) : DecidablePred (Call.SavesOnly tasks) := fun c =>
  inferInstanceAs (Decidable (∀ task ∈ c.op.tasks, task ∈ tasks))

/-- Every task a call may insert is pending. -/
def Call.SavesPending (c : Call) : Prop := ∀ task ∈ c.op.tasks, task.status = .pending

instance : DecidablePred Call.SavesPending := fun c =>
  inferInstanceAs (Decidable (∀ task ∈ c.op.tasks, task.status = .pending))

/-! ## Entries -/

/-- A committed change, and the call whose transaction has committed it. -/
structure Entry where
  call : Call
  began : Began
  change : Change TaskRow
  deriving DecidableEq

/-- The changes a step commits. -/
def Outcome.entries : Outcome → List Entry
  | .committed _ call b cs _ _ => cs.map fun c => ⟨call, b, c⟩
  | _ => []

/-- The committed changes of a task. -/
def history (id : TaskId) (os : List Outcome) : List Entry :=
  (os.flatMap Outcome.entries).filter fun x => decide (x.change.new.id = id)

@[simp] theorem history_nil (id : TaskId) : history id [] = [] := rfl

theorem history_append (id : TaskId) (os ps : List Outcome) :
    history id (os ++ ps) = history id os ++ history id ps := by
  simp [history]

theorem history_cons (id : TaskId) (o : Outcome) (os : List Outcome) :
    history id (o :: os) = history id [o] ++ history id os :=
  history_append id [o] os

theorem mem_history {id : TaskId} {os : List Outcome} {x : Entry} :
    x ∈ history id os ↔ (∃ o ∈ os, x ∈ o.entries) ∧ x.change.new.id = id := by
  simp [history]

theorem mem_history_singleton {id : TaskId} {o : Outcome} {x : Entry} :
    x ∈ history id [o] ↔ x ∈ o.entries ∧ x.change.new.id = id := by
  simp [history]

theorem mem_history_of_step {id : TaskId} {os : List Outcome} {o : Outcome} {x : Entry}
    (ho : o ∈ os) (hx : history id [o] = [x]) : x ∈ history id os := by
  have hm : x ∈ history id [o] := by simp [hx]
  obtain ⟨hxo, hid⟩ := mem_history_singleton.mp hm
  exact mem_history.mpr ⟨⟨o, ho, hxo⟩, hid⟩

theorem history_subset (id : TaskId) {os ps : List Outcome} (h : ps ⊆ os) :
    history id ps ⊆ history id os := by
  intro x hx
  obtain ⟨⟨o, ho, hxo⟩, hid⟩ := mem_history.mp hx
  exact mem_history.mpr ⟨⟨o, h ho, hxo⟩, hid⟩

theorem map_change_entries (o : Outcome) : o.entries.map Entry.change = o.changes := by
  cases o <;> simp [Outcome.entries, Output.changes, Function.comp_def]

theorem map_change_history (id : TaskId) (os : List Outcome) :
    (history id os).map Entry.change = changesAt TaskRow.id id os := by
  have hall : (os.flatMap Outcome.entries).map Entry.change = os.flatMap Output.changes := by
    rw [List.map_flatMap]
    simp only [map_change_entries]
  rw [changesAt, ← hall, List.filter_map]
  rfl

/-- The status of a task in the committed table. -/
def statusAt (db : System) (id : TaskId) : Option TaskStatus := (db.table.get id).map TaskRow.status

/-! ## One entry for a task and commit -/

section Nodup

variable {rely : Table TaskRow.id → (TaskId → Bool) → Env → Prop} {a : Bool} {b : Began}
  {cs ds : List (Change TaskRow)}

theorem UpdatedBy.nodup {u : Update} (h : UpdatedBy rely b u cs ds) :
    ((news ds).map TaskRow.id).Nodup := by
  obtain ⟨t, e, free, -, -, hall⟩ := h
  have hids : (news ds).map TaskRow.id =
      (targets b e (t.putAll (news cs)).rows free u).map TaskRow.id := by
    generalize targets b e (t.putAll (news cs)).rows free u = rs at hall
    induction hall with
    | nil => rfl
    | cons hr _ ih => simpa [hr.2.sameTask.id] using ih
  rw [hids]
  exact (t.putAll (news cs)).nodup.sublist ((targets_sublist ..).map _)

/-- An update finds rows of the table, or rows the transaction has written. -/
theorem UpdatedBy.origin {u : Update} (h : UpdatedBy rely b u cs ds) :
    ∀ d ∈ ds, ∃ r, Update.Rewrites b u r d.new ∧
      (r ∈ news cs ∨ ∀ w ∈ news cs, w.id ≠ d.new.id) := by
  obtain ⟨t, e, free, -, -, hall⟩ := h
  intro d hd
  obtain ⟨r, hr, -, hrw⟩ := exists_of_mem_right hall hd
  refine ⟨r, hrw, ?_⟩
  rcases Table.mem_putAll ((targets_sublist ..).subset hr) with hr | ⟨-, hne⟩
  · exact .inl hr
  · exact .inr fun w hw => hrw.sameTask.id ▸ hne w hw

theorem InsertedBy.ne {task : TaskRecord} {d : Bool} {row : TaskRow}
    (h : InsertedBy rely b task d cs (some row)) : ∀ w ∈ news cs, w.id ≠ row.id := by
  obtain ⟨t, e, free, -, -, h⟩ := h
  obtain ⟨-, hid, -⟩ := execInsert_eq_some h
  intro w hw hk
  obtain ⟨v, hv, hkv⟩ := Table.exists_mem_putAll t hw
  exact hid v hv (hkv.trans hk)

theorem SavedBy.nodup {task : TaskRecord} {idempotent : Bool} {xs : List AuditEntry}
    {res : Option (TaskRow × Bool)} (h : SavedBy rely b cs task idempotent ds xs res) :
    ((news ds).map TaskRow.id).Nodup ∧ ∀ w ∈ news cs, ∀ v ∈ news ds, w.id ≠ v.id := by
  cases h with
  | new h => exact ⟨by simp, fun w hw v hv => by simp_all [h.ne w hw]⟩
  | old => simp
  | gone => simp

theorem CalledBy.nodup {call : TxCall} {xs : List AuditEntry} {reply : Reply}
    (h : CalledBy rely b cs call ds xs reply) :
    ((news ds).map TaskRow.id).Nodup ∧ ∀ w ∈ news cs, ∀ v ∈ news ds, w.id ≠ v.id := by
  cases h with
  | saveInTx h => exact h.nodup
  | saveIdempotentInTx h => exact h.nodup

theorem CalledAll.nodup {calls : List TxCall} {xs : List AuditEntry} {replies : List Reply}
    (h : CalledAll rely b cs calls ds xs replies) :
    ((news ds).map TaskRow.id).Nodup ∧ ∀ w ∈ news cs, ∀ v ∈ news ds, w.id ≠ v.id := by
  induction h with
  | nil => simp
  | cons hcall _ ih =>
    simp only [news_append, List.mem_append] at ih ⊢
    obtain ⟨hn, hne⟩ := hcall.nodup
    refine ⟨?_, fun w hw v hv => hv.elim (hne w hw v) (ih.2 w (.inl hw) v)⟩
    rw [List.map_append]
    apply hn.append ih.1
    rintro _ hi hj
    obtain ⟨w, hw, rfl⟩ := List.mem_map.mp hi
    obtain ⟨v, hv, hk⟩ := List.mem_map.mp hj
    exact ih.2 w (.inr hw) v hv hk.symm

theorem pending_of_recoverRetryable {r r' : TaskRow}
    (h : Update.Rewrites b .recoverRetryable r r') : r'.status = .pending := by
  cases h
  rfl

theorem running_of_recoverExhausted {r r' : TaskRow}
    (h : Update.Rewrites b .recoverExhausted r r') : r.status = .running := by
  cases h
  assumption

/-- **No operation commits two changes of one task.** -/
theorem Op.Spec.nodup {op : Op} {ls : List AuditRow} {r : Reply}
    (h : Op.Spec rely a b op cs ls (.commit r)) : ((news cs).map TaskRow.id).Nodup := by
  cases h with
  | save h => exact h.nodup.1
  | saveIdempotent h => exact h.nodup.1
  | inTxCommit h => exact h.nodup.1
  | recovered hds hes _ =>
    rw [news_append, List.map_append]
    apply hds.nodup.append hes.nodup
    -- a recovered row is pending, and the second update looks for running rows
    rintro _ hi hj
    obtain ⟨w, hw, rfl⟩ := List.mem_map.mp hi
    obtain ⟨v, hv, hk⟩ := List.mem_map.mp hj
    obtain ⟨d, hd, rfl⟩ := mem_news.mp hv
    obtain ⟨r, hr, hr' | hne⟩ := hes.origin d hd
    · obtain ⟨c, hc, rfl⟩ := mem_news.mp hr'
      obtain ⟨r₀, -, hrw⟩ := hds.rewrites c hc
      have hrun := running_of_recoverExhausted hr
      rw [pending_of_recoverRetryable hrw] at hrun
      cases hrun
    · exact hne w hw hk.symm
  | cleanup h | released h | expired h | written h => exact h.nodup
  | claimed | transition | releasedTask | cancelled => simp
  | _ => simp

end Nodup

section Runs

variable {ok : List Outcome → System → Move → Prop} {t : Table TaskRow.id}
  {log : List (ℕ × AuditRow)} {n : ℕ} {os : List Outcome} {db db' : System} {ev : Move} {o : Outcome}

/-- Transactions of a run meet their specifications, whatever their statements see. -/
theorem Runs.spec_idle (h : Runs ok (.idle t log n) os db) :
    ∀ o ∈ os, o.Specified (fun _ _ _ => True) fun _ => True :=
  h.spec _ _ (Db.exclusive_idle _ _ _) (fun s hs => by simp [Db.idle] at hs)
    fun _ _ _ _ _ _ _ => trivial

/-- A commit of a run meets the specification of its operation. -/
theorem Runs.spec_committed (h : Runs ok (.idle t log n) os db) {sid : ℕ} {call : Call} {b : Began}
    {cs : List (Change TaskRow)} {ls : List (ℕ × AuditRow)} {reply : Reply}
    (ho : .committed sid call b cs ls reply ∈ os) :
    Op.Spec (fun _ _ _ => True) call.auditLog b call.op cs (ls.map Prod.snd) (.commit reply) :=
  h.spec_idle _ ho trivial

/-- What a run answers with a response has been committed, but for a batch its caller rolls
back. -/
theorem Runs.committed_of_response (h : Runs ok (.idle t log n) os db) (ho : o ∈ os) {x : Response}
    (hx : ∀ replies, x ≠ .batch replies) (hreply : o.reply = some (.ok x)) :
    ∃ sid call b cs ls, o = .committed sid call b cs ls (.ok x) ∧
      Op.Spec (fun _ _ _ => True) call.auditLog b call.op cs (ls.map Prod.snd) (.commit (.ok x)) :=
  Outcome.Meets.eq_committed (h.spec_idle o ho) hx hreply

theorem Runs.history_length_le (h : Runs ok (.idle t log n) os db) (ho : o ∈ os) (id : TaskId) :
    (history id [o]).length ≤ 1 := by
  cases o with
  | committed sid call b cs ls r =>
    have hn := (h.spec_committed ho).nodup
    have hmap : (history id [Output.committed sid call b cs ls r]).length =
        ((news cs).map TaskRow.id).count id := by
      rw [← List.length_map (f := Entry.change), map_change_history]
      simp [changesAt, news, List.count_eq_countP, List.countP_map, ← List.countP_eq_length_filter,
        Function.comp_def, beq_eq_decide]
    rw [hmap]
    exact List.nodup_iff_count_le_one.mp hn id
  | _ => simp [history, Outcome.entries]

/-- An entry of a task is committed by one step: the entries before it are those of the steps
before. -/
theorem Runs.split_history (h : Runs ok (.idle t log n) os db) {id : TaskId} {pre post : List Entry}
    {x : Entry} (hx : history id os = pre ++ x :: post) :
    ∃ ps o qs, os = ps ++ o :: qs ∧ history id ps = pre ∧ history id [o] = [x] ∧
      history id qs = post := by
  have hle : ∀ o ∈ os, (history id [o]).length ≤ 1 := fun o ho => h.history_length_le ho id
  clear h
  induction os generalizing pre with
  | nil => simp at hx
  | cons o os ih =>
    have hles : ∀ p ∈ os, (history id [p]).length ≤ 1 := fun p hp =>
      hle p (List.mem_cons_of_mem _ hp)
    rw [history_cons] at hx
    match ho : history id [o] with
    | [] =>
      rw [ho] at hx
      obtain ⟨ps, p, qs, rfl, hps, hp, hqs⟩ := ih hx hles
      refine ⟨o :: ps, p, qs, rfl, ?_, hp, hqs⟩
      rw [history_cons, ho, hps, List.nil_append]
    | [y] =>
      rw [ho] at hx
      rcases pre with _ | ⟨z, pre⟩
      · obtain ⟨rfl, rfl⟩ : y = x ∧ history id os = post := by simpa using hx
        exact ⟨[], o, os, rfl, rfl, ho, rfl⟩
      · obtain ⟨rfl, hrest⟩ : y = z ∧ history id os = pre ++ x :: post := by simpa using hx
        obtain ⟨ps, p, qs, rfl, hps, hp, hqs⟩ := ih hrest hles
        refine ⟨o :: ps, p, qs, rfl, ?_, hp, hqs⟩
        rw [history_cons, ho, hps, List.singleton_append]
    | y :: z :: ys =>
      -- an outcome has at most one entry of the task
      have hone := hle o List.mem_cons_self
      simp [ho] at hone

theorem Runs.history_linked (h : Runs ok (.idle t log n) os db) (id : TaskId) :
    Linked (t.get id) ((history id os).map Entry.change) (db.table.get id) := by
  rw [map_change_history]
  exact Reaches.linked h id

/-- What every entry keeps holds of the current version of a task and of those before it. -/
theorem Runs.keeps {I : TaskRow → Prop} (h : Runs ok (.idle t log n) os db) (id : TaskId)
    (init : ∀ r, t.get id = some r → I r)
    (next : ∀ x ∈ history id os, (∀ r, x.change.old = some r → I r) → I x.change.new) :
    (∀ r, db.table.get id = some r → I r) ∧
      ∀ x ∈ history id os, (∀ r, x.change.old = some r → I r) ∧ I x.change.new := by
  have hnext : ∀ c ∈ (history id os).map Entry.change, (∀ r, c.old = some r → I r) →
      ∀ r, some c.new = some r → I r := by
    rintro c hc hold r ⟨⟩
    obtain ⟨x, hx, rfl⟩ := List.mem_map.mp hc
    exact next x hx hold
  obtain ⟨hlast, hall⟩ := (h.history_linked id).keeps (P := fun o => ∀ r, o = some r → I r)
    init hnext
  refine ⟨hlast, fun x hx => ?_⟩
  have hold := hall _ (List.mem_map_of_mem (f := Entry.change) hx)
  exact ⟨hold, next x hx hold⟩

/-- **A step changes a task by at most one entry.** -/
theorem Runs.committed_step (h : Runs ok (.idle t log n) os db) (hok : ok os db ev)
    (hs : System.step db ev = some (db', o)) (id : TaskId) :
    history id [o] = [] ∧ db'.table.get id = db.table.get id ∨
      ∃ x, history id [o] = [x] ∧ x.change.old = db.table.get id ∧
        db'.table.get id = some x.change.new := by
  have hle := Runs.history_length_le (Reaches.next h hok hs) (o := o) (by simp) id
  have hlink := (Db.step_iff.mp hs).linked id
  rw [← map_change_history] at hlink
  match hx : history id [o] with
  | [] =>
    rw [hx] at hlink
    exact .inl ⟨rfl, hlink.symm⟩
  | [x] =>
    rw [hx] at hlink
    exact .inr ⟨x, rfl, hlink.1, hlink.2.symm⟩
  | x :: y :: xs => simp [hx] at hle

/-- A version the last step has committed is the current one. -/
theorem Runs.get_of_last (h : Runs ok (.idle t log n) (os ++ [o]) db) {c : Change TaskRow}
    (hc : c ∈ o.changes) : db.table.get c.new.id = some c.new := by
  obtain ⟨db₀, ev, hr, hok, hs⟩ := h.last
  have hmem : c ∈ (history c.new.id [o]).map Entry.change := by
    rw [map_change_history]
    exact List.mem_filter.mpr ⟨by simpa using hc, decide_eq_true rfl⟩
  rcases Runs.committed_step hr hok hs c.new.id with ⟨hnil, -⟩ | ⟨x, hx, -, hnew⟩
  · rw [hnil] at hmem
    cases hmem
  · rw [hx] at hmem
    obtain rfl : c = x.change := List.mem_singleton.mp hmem
    exact hnew

/-- **The rule of columns.** A column of a task that changes only where `f` shows its new value, in
versions that are not terminal, has the last value shown; `init` where none has been shown. -/
theorem Runs.column {β : Type} (h : Runs ok (.idle ∅ log n) os db) (id : TaskId) (col : TaskRow → β)
    (f : Outcome → Option β) (init : β) (hquiet : ∀ o ∈ os, history id [o] = [] → f o = none)
    (hinsert : ∀ o ∈ os, ∀ x, history id [o] = [x] → x.change.old = none →
      col x.change.new = (f o).getD init)
    (hupdate : ∀ o ∈ os, ∀ x r, history id [o] = [x] → x.change.old = some r →
      x.change.new.status.isTerminal = false →
        r.status.isTerminal = false ∧ col x.change.new = (f o).getD (col r)) :
    (db.table.get id = none → lastOf f os = none) ∧
      ∀ r, db.table.get id = some r → r.status.isTerminal = false →
        col r = (lastOf f os).getD init := by
  induction h with
  | init => exact ⟨fun _ => rfl, fun r hr => by simp [Db.idle] at hr⟩
  | @next os db ev db' o hr hok hs ih =>
    obtain ⟨habsent, hrow⟩ := ih (fun o ho => hquiet o (List.mem_append_left _ ho))
      (fun o ho => hinsert o (List.mem_append_left _ ho))
      (fun o ho => hupdate o (List.mem_append_left _ ho))
    have ho : o ∈ os ++ [o] := by simp
    have hlast : lastOf f (os ++ [o]) = (f o).or (lastOf f os) := by
      rw [lastOf_append, lastOf_singleton]
    rw [hlast]
    -- the step has no entry of the task, or one, which inserts it or updates it
    rcases Runs.committed_step hr hok hs id with ⟨hnil, hget⟩ | ⟨x, hx, hold, hnew⟩
    · rw [hquiet o ho hnil, hget]
      exact ⟨habsent, hrow⟩
    · rw [hnew]
      refine ⟨by simp, ?_⟩
      rintro r ⟨⟩ hterm
      cases hget : db.table.get id with
      | none =>
        rw [hinsert o ho x hx (hold.trans hget), habsent hget]
        simp
      | some r =>
        obtain ⟨hr', hcol⟩ := hupdate o ho x r hx (hold.trans hget) hterm
        rw [hcol, hrow r hget hr']
        cases f o <;> rfl

/-- **Every entry is a change its call can make.** -/
theorem Runs.caused (h : Runs ok (.idle t log n) os db) (id : TaskId) :
    ∀ x ∈ history id os, x.call.op.Causes x.began x.change := by
  intro x hx
  obtain ⟨⟨o, ho, hx⟩, -⟩ := mem_history.mp hx
  have hc := Runs.causes h o ho
  cases o with
  | committed sid call b cs ls r =>
    obtain ⟨c, hm, rfl⟩ := List.mem_map.mp hx
    exact hc c hm
  | _ => cases hx

/-- The finished transactions of a run are those of its calls. -/
theorem Runs.started {P : Call → Prop} (h : Runs ok (.idle t log n) os db)
    (hP : ∀ os db sid call b, ok os db (.start sid call b) → P call) :
    ∀ o ∈ os, Output.Meets (fun call _ _ _ _ => P call) (fun _ => True) o :=
  Reaches.started (P := fun call _ => P call) _ (Db.exclusive_idle _ _ _)
    (fun s hs => by simp [Db.idle] at hs) hP h

/-- The calls of the entries are calls of the run. -/
theorem Runs.called {P : Call → Prop} (h : Runs ok (.idle t log n) os db)
    (hP : ∀ os db sid call b, ok os db (.start sid call b) → P call) (id : TaskId) :
    ∀ x ∈ history id os, P x.call := by
  intro x hx
  obtain ⟨⟨o, ho, hx⟩, -⟩ := mem_history.mp hx
  have hc := h.started hP o ho
  cases o with
  | committed sid call b cs ls r =>
    obtain ⟨c, hm, rfl⟩ := List.mem_map.mp hx
    exact hc trivial
  | _ => cases hx

end Runs

/-! ## The life cycle -/

/-- What a row says of the life of its task. -/
def TaskRow.life (r : TaskRow) : Life where
  status := r.status
  attempts := r.attempts.val
  maxAttempts := r.maxAttempts.val
  holder := if r.status = .running then r.claimedBy else none

/-- What an update does to a task whose row it selects. -/
def Update.action (r : TaskRow) : Update → Action
  | claimNext _ workerId _ _ => .claim workerId
  | complete _ => .complete
  | fail .. | recoverRetryable | recoverExhausted =>
    if r.attempts.val < r.maxAttempts.val then .retry else .exhaust
  | cancel _ => .cancel
  | releaseLeasesForWorker _ | releaseLeaseForTask _ => .release
  | suspend _ => .suspend
  | signal .. => .signal
  | expireSuspendedTasks _ => .expire
  | cleanupExpiredIdempotencyKeys _ | writeCheckpoint .. => .touch

/-- What an operation does to a task whose row it finds as `old`. -/
def Op.action (op : Op) (old : Option TaskRow) : Action :=
  match old, op.updates with
  | none, _ => .submit
  | some r, u :: _ => u.action r
  | some _, [] => .touch

def Entry.action (x : Entry) : Action := x.call.op.action x.change.old

/-- What an update does to a row is one action of the life cycle. -/
theorem Update.Rewrites.step {b : Began} {u : Update} {r r' : TaskRow} (h : Rewrites b u r r') :
    Life.Step (some r.life) (u.action r) r'.life := by
  cases h with
  | claimNext hs _ _ _ ha => simpa [TaskRow.life, ha, action] using Life.Step.claim (l := r.life) hs
  | complete hs => exact .complete hs
  | retry hs hlt => simpa [TaskRow.life, action, hlt] using Life.Step.retry (l := r.life) hs hlt
  | exhaust hs hle =>
    simpa [TaskRow.life, action, Int.not_lt.mpr hle] using Life.Step.exhaust (l := r.life) hs hle
  | recoverRetryable hs _ _ hlt =>
    simpa [TaskRow.life, action, hlt] using Life.Step.retry (l := r.life) hs hlt
  | recoverExhausted hs _ _ hle =>
    simpa [TaskRow.life, action, Int.not_lt.mpr hle] using Life.Step.exhaust (l := r.life) hs hle
  | cancel hs => exact .cancel hs
  | releaseLeasesForWorker hs _ ha =>
    simpa [TaskRow.life, ha, action] using Life.Step.release (l := r.life) hs
  | releaseLeaseForTask hs ha =>
    simpa [TaskRow.life, ha, action] using Life.Step.release (l := r.life) hs
  | suspend hs => exact .suspend hs
  | signal hs => exact .signal hs
  | expireSuspendedTasks hs => exact .expire hs
  | cleanupExpiredIdempotencyKeys => exact .touch
  | writeCheckpoint => exact .touch

theorem Op.action_of_mem {op : Op} {u : Update} (h : u ∈ op.updates) (r : TaskRow) :
    op.action (some r) = u.action r := by
  cases op with
  | recoverZombieTasks =>
    rcases List.mem_cons.mp h with rfl | h
    · rfl
    · obtain rfl := List.mem_singleton.mp h
      rfl
  | save | saveIdempotent | inTx | findById => cases h
  | _ =>
    obtain rfl := List.mem_singleton.mp h
    rfl

/-- **Every change an operation makes is an action of the life cycle.** -/
theorem Op.Causes.step {op : Op} {b : Began} {c : Change TaskRow} (h : op.Causes b c)
    (hp : c.old = none → ∀ task ∈ op.tasks, task.status = .pending) :
    Life.Step (c.old.map TaskRow.life) (op.action c.old) c.new.life := by
  cases h with
  | @insert task lastError ht =>
    have hs : (insertedRow b task lastError).status = .pending := hp rfl task ht
    exact .submit hs (if_neg (by rw [hs]; decide))
  | update hu hr =>
    rw [Op.action_of_mem hu]
    exact hr.step

/-- The entries of a task as actions of its life. -/
def lifeOf (xs : List Entry) : List (Action × Life) := xs.map fun x => (x.action, x.change.new.life)

theorem path_of_linked {o o' : Option TaskRow} {xs : List Entry}
    (h : Linked o (xs.map Entry.change) o')
    (hstep : ∀ x ∈ xs, Life.Step (x.change.old.map TaskRow.life) x.action x.change.new.life) :
    Life.Path (o.map TaskRow.life) (lifeOf xs) (o'.map TaskRow.life) := by
  induction xs generalizing o with
  | nil => cases h; rfl
  | cons x xs ih =>
    obtain ⟨rfl, h⟩ := h
    exact ⟨hstep x List.mem_cons_self, ih h fun y hy => hstep y (List.mem_cons_of_mem _ hy)⟩

section Path

variable {ok : List Outcome → System → Move → Prop} {t : Table TaskRow.id}
  {log : List (ℕ × AuditRow)} {n : ℕ} {os : List Outcome} {db : System}

/-- **The history of a task is a path of its life cycle**, in every run whose saves are of pending
tasks. -/
theorem Runs.path (h : Runs ok (.idle t log n) os db)
    (hsave : ∀ os db sid call b, ok os db (.start sid call b) → call.SavesPending) (id : TaskId) :
    Life.Path ((t.get id).map TaskRow.life) (lifeOf (history id os))
      ((db.table.get id).map TaskRow.life) :=
  path_of_linked (h.history_linked id) fun x hx =>
    (h.caused id x hx).step fun _ => h.called hsave id x hx

/-- Entries linked from an existing row are a path, whatever the saves of the run. -/
theorem Runs.path_from (h : Runs ok (.idle t log n) os db) (id : TaskId) {xs : List Entry}
    {r : TaskRow} {o : Option TaskRow} (hsub : ∀ x ∈ xs, x ∈ history id os)
    (hlink : Linked (some r) (xs.map Entry.change) o) :
    ∃ r', o = some r' ∧ Life.Path (some r.life) (lifeOf xs) (some r'.life) := by
  obtain ⟨hlast, hold⟩ := hlink.keeps (P := fun o => o.isSome) rfl fun _ _ _ => rfl
  obtain ⟨r', rfl⟩ := Option.isSome_iff_exists.mp hlast
  refine ⟨r', rfl, path_of_linked hlink fun x hx => ?_⟩
  apply (h.caused id x (hsub x hx)).step
  intro hn
  simpa [hn] using hold _ (List.mem_map_of_mem hx)

/-- What follows an entry in the history of a task leads to its current row. -/
theorem Runs.path_after (h : Runs ok (.idle t log n) os db) {id : TaskId} {pre post : List Entry}
    {x : Entry} (hx : history id os = pre ++ x :: post) :
    ∃ r, db.table.get id = some r ∧
      Life.Path (some x.change.new.life) (lifeOf post) (some r.life) := by
  have hlink := h.history_linked id
  rw [hx, List.map_append] at hlink
  obtain ⟨_, -, -, hlink⟩ := linked_append.mp hlink
  exact h.path_from id (fun y hy => by simp [hx, hy]) hlink

/-- What lies between two entries in the history of a task links them. -/
theorem Runs.linked_between (h : Runs ok (.idle t log n) os db) {id : TaskId}
    {pre mid post : List Entry} {x y : Entry}
    (hxy : history id os = pre ++ x :: mid ++ y :: post) :
    Linked (some x.change.new) (mid.map Entry.change) y.change.old := by
  have hlink := h.history_linked id
  rw [hxy, List.map_append, List.map_append] at hlink
  obtain ⟨_, hlink, rfl, -⟩ := linked_append.mp hlink
  obtain ⟨_, -, -, hmid⟩ := linked_append.mp hlink
  exact hmid

/-- What lies between two entries in the history of a task leads from one to the other. -/
theorem Runs.path_between (h : Runs ok (.idle t log n) os db) {id : TaskId}
    {pre mid post : List Entry} {x y : Entry}
    (hxy : history id os = pre ++ x :: mid ++ y :: post) :
    ∃ r, y.change.old = some r ∧
      Life.Path (some x.change.new.life) (lifeOf mid) (some r.life) ∧
      Life.Step (some r.life) y.action y.change.new.life := by
  obtain ⟨r, hy, hp⟩ := h.path_from id (fun z hz => by simp [hxy, hz]) (h.linked_between hxy)
  have hstep := (h.caused id y (by simp [hxy])).step fun hn => by simp [hn] at hy
  rw [hy] at hstep
  exact ⟨r, hy, hp, by rwa [Entry.action, hy]⟩

end Path

end IronDefer
