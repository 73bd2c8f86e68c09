import IronDefer.Infrastructure.RowInvariant

/-!
# Idempotency keys

The partial unique index keeps one unfinished task for each queue and key, whatever the
interleaving, and no update ever runs into it: an update keeps the index value of a row or gives it
up. While a task is unfinished, submissions with its key find it. Its key is only cleared after it
has finished, and not before the retention after its submission has passed.

## Main definitions

* `TaskRow.Active`: an unfinished row with a given queue and key
* `KeyHeld`: the task with a given id is unfinished and has a given queue and key
* `Answers`: the replies to submissions with the key of such a task

## Main results

* `active_key_unique`: **one unfinished task for each queue and key**; no update is refused for the
  index, and no cleanup clears the key of an unfinished task
* `duplicate_submissions`: **submissions with the key of an unfinished task return that task**
* `key_reused_after_completion`: a run in which a key is used again right after completion
-/

namespace IronDefer

open RowStore

/-- An unfinished row of the queue with the key. -/
structure TaskRow.Active (queue key : String) (r : TaskRow) : Prop where
  queue : r.queue = queue
  key : r.idempotencyKey = some key
  status : r.status.isTerminal = false

theorem TaskRow.active_iff {queue key : String} {r : TaskRow} :
    r.Active queue key ↔ idempotencyIndex r = some (queue, key) := by
  unfold idempotencyIndex
  constructor
  · rintro ⟨rfl, hk, hs⟩
    simp [hk, hs]
  · intro h
    split at h
    · cases h
    next hs =>
      obtain ⟨k, hk, he⟩ := Option.map_eq_some_iff.mp h
      cases he
      exact ⟨rfl, hk, by simpa using hs⟩

theorem TaskRow.Active.clash {queue key : String} {r w : TaskRow} (hr : r.Active queue key)
    (hw : w.Active queue key) : Clash idempotencyIndex r w := by
  rw [active_iff] at hr hw
  exact ⟨hr.trans hw.symm, by simp [hr]⟩

/-! ## One unfinished task for each key -/

section Unique

variable {ok : List Outcome → System → Move → Prop} {os : List Outcome} {db : System}

/-- No run from the empty store has rows that clash in the index, committed or not. -/
theorem Runs.indexed (h : Runs ok .empty os db) : db.Indexed idempotencyIndex :=
  Reaches.indexed (fun _ _ _ _ _ _ _ hw he _ => fits_of_exec hw he)
    (Db.indexed_idle (fun r hr => by cases hr) _ _) h

/-- The statements to come in a run are those of its calls. -/
theorem Runs.sends (h : Runs ok .empty os db) : db.AllStatements fun call _ q => call.op.Sends q :=
  (Reaches.allVersions (I := fun _ => True) (fun _ _ _ _ _ _ _ _ _ _ _ _ => trivial)
    (fun _ _ _ call _ _ => call.op.program_all call.auditLog) ⟨fun _ _ => trivial, fun _ _ _ _ => trivial⟩
    (fun s hs => by simp [System.empty, Db.idle] at hs) h).2

/-- An update keeps the key of a row and its expiry, or clears both on a finished row. -/
theorem Update.Rewrites.key {b : Began} {u : Update} {r r' : TaskRow} (h : Rewrites b u r r') :
    r'.idempotencyKey = r.idempotencyKey ∧ r'.idempotencyExpiresAt = r.idempotencyExpiresAt ∨
      r'.idempotencyKey = none ∧ r'.idempotencyExpiresAt = none ∧ r.status.isTerminal = true := by
  cases h with
  | cleanupExpiredIdempotencyKeys ht hlt hs => exact .inr ⟨rfl, rfl, hs⟩
  | _ => exact .inl ⟨rfl, rfl⟩

/-- A version an update writes clashes with no other row, where the rows it sees do not clash. -/
theorem Update.Rewrites.not_clash {b : Began} {u : Update} {r r' w : TaskRow} {rows : List TaskRow}
    (h : Rewrites b u r r') (hu : RowStore.Unique TaskRow.id idempotencyIndex rows) (hr : r ∈ rows)
    (hw : w ∈ rows) (hne : w.id ≠ r'.id) : ¬ Clash idempotencyIndex r' w := by
  intro hc
  rcases h.index with hi | hi
  · exact hc.2 hi
  · have hid : r.id = w.id := hu r hr w hw (hc.congr hi.symm rfl)
    exact hne (hid.symm.trans h.sameTask.id.symm)

theorem Op.updates_of_tasks {op : Op} {task : TaskRecord} (h : task ∈ op.tasks) :
    op.updates = [] := by
  cases op with
  | save | saveIdempotent | inTx => rfl
  | _ => cases h

/-- **One unfinished task for each queue and key.** In every run from the empty store, of any
operations in any interleaving: two unfinished rows with the same queue and key are the same row;
an operation refused for the index is one that updates no row; and where the key of a row is
cleared, at whatever clock value, the row is finished. -/
theorem active_key_unique (h : Runs ok .empty os db) :
    (∀ queue key, ∀ r ∈ db.table.rows, ∀ w ∈ db.table.rows, r.Active queue key →
      w.Active queue key → r = w) ∧
    (∀ sid call, .failed sid call (some .idempotencyIndex) ∈ os → call.op.updates = []) ∧
    ∀ id, ∀ x ∈ history id os, ∀ r, x.change.old = some r →
      x.change.new.idempotencyKey ≠ r.idempotencyKey → r.status.isTerminal = true := by
  refine ⟨fun queue key r hr w hw har haw => ?_, fun sid call ho => ?_, fun id x hx r hr hne => ?_⟩
  · have hid : r.id = w.id := h.indexed.table r hr w hw (har.clash haw)
    have hget := Table.get_key_of_mem hr
    rw [hid, Table.get_key_of_mem hw] at hget
    exact (Option.some.inj hget).symm
  · obtain ⟨os', db', s, q, k, e, hr, hs, rfl, hrest, he⟩ := Reaches.of_failed h ho
    have hsends := Runs.sends hr s hs
    rw [hrest, Program.all_stmt] at hsends
    obtain ⟨hq, -⟩ := hsends
    generalize hview : (db'.view s).rows = rows at he
    -- the index is met by an insert only: an update gives a row no key that it had not
    cases refused_of_exec he with
    | value hv => cases hv
    | insertIndex => exact Op.updates_of_tasks hq
    | updateIndex hmem hrw hw hne hc =>
      exact absurd hc (hrw.not_clash ((Runs.indexed hr).view s hs) (hview ▸ hmem) (hview ▸ hw) hne)
  · have hcause := h.caused id x hx
    generalize x.change = c at hcause hr hne
    cases hcause with
    | insert => cases hr
    | update _ hrw =>
      cases hr
      rcases hrw.key with ⟨hk, -⟩ | ⟨-, -, hs⟩
      · exact absurd hk hne
      · exact hs

end Unique

/-- Two submissions with the same key. -/
def duplicateMoves : List Move :=
  serve 1 (callOf (.saveIdempotent (sampleKeyed 1))) 0 [.all] ++
  serve 2 (callOf (.saveIdempotent (sampleKeyed 2))) 10 [.all, .all]

/-- In the sample, there is one row for the key after both submissions. -/
theorem duplicate_unique : (System.after duplicateMoves).table.rows ≠ [] ∧
    ∀ r ∈ (System.after duplicateMoves).table.rows,
      ∀ w ∈ (System.after duplicateMoves).table.rows, r.Active "default" "key" →
        w.Active "default" "key" → r = w := by
  have h : Runs (fun _ _ _ => True) .empty _ _ :=
    Runs.of_moves duplicateMoves (by decide +kernel) (by decide +kernel)
  exact ⟨by decide +kernel, (active_key_unique h).1 "default" "key"⟩

/-! ## Submissions with the key of an unfinished task -/

/-- The task is unfinished whenever the database takes a step, and all saves are of pending
tasks. -/
def While (id : TaskId) (os : List Outcome) (db : System) (ev : Move) : Prop :=
  Calls Call.SavesPending os db ev ∧ (statusAt db id).any (fun s => !s.isTerminal) = true

instance (id : TaskId) (os : List Outcome) (db : System) (ev : Move) :
    Decidable (While id os db ev) :=
  inferInstanceAs (Decidable (_ ∧ _))

/-- The row of the task `id` is unfinished, with the queue and key, and no rows clash. -/
structure KeyHeld (id : TaskId) (queue key : String) (t : Table TaskRow.id) : Prop where
  row : ∃ r ∈ t.rows, r.id = id ∧ r.Active queue key
  unique : RowStore.Unique TaskRow.id idempotencyIndex t.rows

/-- A submission with the queue and the key. -/
def TaskRecord.HasKey (queue key : String) (task : TaskRecord) : Prop :=
  task.queue.asStr = queue ∧ task.idempotencyKey = some key

/-- The reply of a submission that finds the task `id`: its record and `created = false`, or the
error of a row that cannot be decoded. -/
def Existing (id : TaskId) (reply : Reply) : Prop :=
  ∃ row, row.id = id ∧ reply = (TaskRecord.tryFrom row).map (.saved · false)

/-- What an operation has changed and replied while the task `id` has held the key. -/
structure Answers (id : TaskId) (queue key : String) (op : Op) (cs : List (Change TaskRow))
    (reply : Reply) : Prop where
  inserts : ∀ c ∈ cs, c.old = none → ¬ c.new.Active queue key
  saveIdempotent : ∀ task, op = .saveIdempotent task → task.HasKey queue key →
    cs = [] ∧ Existing id reply
  inTx : ∀ calls commit, op = .inTx calls commit → ∃ replies, reply = .ok (.batch replies) ∧
    List.Forall₂ (fun call reply => ∀ task, call = .saveIdempotentInTx task →
      task.HasKey queue key → Existing id reply) calls replies

section Submissions

variable {rely : Table TaskRow.id → (TaskId → Bool) → Env → Prop} {a : Bool} {b : Began}
  {cs ds : List (Change TaskRow)} {id : TaskId} {queue key : String}

/-- The transaction's own rows are other tasks, without the key. -/
def Apart (id : TaskId) (queue key : String) (cs : List (Change TaskRow)) : Prop :=
  ∀ w ∈ news cs, w.id ≠ id ∧ ¬ w.Active queue key

theorem KeyHeld.view {t : Table TaskRow.id} (h : KeyHeld id queue key t)
    (hcs : Apart id queue key cs) :
    (∃ r ∈ (t.putAll (news cs)).rows, r.id = id ∧ r.Active queue key) ∧
      ∀ w ∈ (t.putAll (news cs)).rows, w.Active queue key → w.id = id := by
  obtain ⟨⟨r, hr, hid, ha⟩, hu⟩ := h
  refine ⟨⟨r, Table.mem_putAll_of_notMem hr fun w hw => ?_, hid, ha⟩, fun w hw haw => ?_⟩
  · exact hid ▸ (hcs w hw).1
  · rcases Table.mem_putAll hw with hw | ⟨hw, -⟩
    · exact absurd haw (hcs w hw).2
    · exact (hu w hw r hr (haw.clash ha)).trans hid

theorem InsertedBy.apart {task : TaskRecord} {d : Bool} {row : TaskRow}
    (hrely : ∀ t free e, rely t free e → KeyHeld id queue key t) (hcs : Apart id queue key cs)
    (h : InsertedBy rely b task d cs (some row)) : row.id ≠ id ∧ ¬ row.Active queue key := by
  obtain ⟨t, e, free, ht, -, h⟩ := h
  obtain ⟨⟨r, hr, rfl, ha⟩, -⟩ := (hrely t free e ht).view hcs
  obtain ⟨-, hid, hidx⟩ := execInsert_eq_some h
  exact ⟨(hid r hr).symm, fun harow =>
    hid r hr (not_clash_of_checkIndex hidx r hr (harow.clash ha)).symm⟩

/-- A save while the key is held: what it inserts is apart, and with the key it finds the task. -/
theorem SavedBy.answers {task : TaskRecord} {idempotent : Bool} {xs : List AuditEntry}
    {res : Option (TaskRow × Bool)} (hrely : ∀ t free e, rely t free e → KeyHeld id queue key t)
    (hcs : Apart id queue key cs) (hp : task.status = .pending)
    (h : SavedBy rely b cs task idempotent ds xs res) :
    Apart id queue key ds ∧ (idempotent = true → task.HasKey queue key →
      ds = [] ∧ ∃ row, row.id = id ∧ res = some (row, false)) := by
  -- what the second statement looks for are the active rows with the key
  have hactive : ∀ r : TaskRow, task.HasKey queue key →
      (isActive task.queue.asStr task.idempotencyKey r = true ↔ r.Active queue key) := by
    rintro r ⟨rfl, hk⟩
    rw [hk]
    simp only [isActive, Bool.and_eq_true, decide_eq_true_eq, Option.isSome_some, and_true,
      Bool.not_eq_true']
    exact ⟨fun ⟨⟨hq, hk⟩, hs⟩ => ⟨hq, hk, hs⟩, fun ⟨hq, hk, hs⟩ => ⟨⟨hq, hk⟩, hs⟩⟩
  cases h with
  | new h =>
    have hrow := h.apart hrely hcs
    -- a new row with the key would clash with the one that holds it
    refine ⟨by simpa [Apart] using hrow, fun _ hkey => absurd ?_ hrow.2⟩
    obtain ⟨t, e, free, -, -, h⟩ := h
    obtain ⟨rfl, -, -⟩ := execInsert_eq_some h
    exact ⟨hkey.1, hkey.2, by simp [insertedRow, hp, TaskStatus.isTerminal]⟩
  | old _ h =>
    refine ⟨by simp [Apart], fun _ hkey => ⟨rfl, ?_⟩⟩
    obtain ⟨t, e, free, ht, -, hfind⟩ := h
    refine ⟨_, ((hrely t free e ht).view hcs).2 _ (List.mem_of_find?_eq_some hfind) ?_, rfl⟩
    exact (hactive _ hkey).mp (List.find?_some hfind)
  | gone _ h =>
    refine ⟨by simp [Apart], fun _ hkey => ?_⟩
    obtain ⟨t, e, free, ht, -, hfind⟩ := h
    obtain ⟨⟨r, hr, -, ha⟩, -⟩ := (hrely t free e ht).view hcs
    exact absurd ((hactive r hkey).mpr ha) (List.find?_eq_none.mp hfind r hr)

theorem apart_nil : Apart id queue key [] := fun w hw => by simp at hw

theorem Apart.append (hcs : Apart id queue key cs) (hds : Apart id queue key ds) :
    Apart id queue key (cs ++ ds) := by
  intro w hw
  rw [news_append] at hw
  exact (List.mem_append.mp hw).elim (hcs w) (hds w)

theorem Apart.inserts (h : Apart id queue key cs) :
    ∀ c ∈ cs, c.old = none → ¬ c.new.Active queue key :=
  fun c hc _ => (h c.new (mem_news.mpr ⟨c, hc, rfl⟩)).2

theorem CalledBy.answers {call : TxCall} {xs : List AuditEntry} {reply : Reply}
    (hrely : ∀ t free e, rely t free e → KeyHeld id queue key t)
    (hcs : Apart id queue key cs) (hp : call.task.status = .pending)
    (h : CalledBy rely b cs call ds xs reply) :
    Apart id queue key ds ∧ ∀ task, call = .saveIdempotentInTx task → task.HasKey queue key →
      Existing id reply := by
  cases h with
  | saveInTx h => exact ⟨(h.answers hrely hcs hp).1, fun _ hc => by cases hc⟩
  | saveIdempotentInTx h =>
    obtain ⟨hds, hfound⟩ := h.answers hrely hcs hp
    refine ⟨hds, ?_⟩
    rintro _ ⟨⟩ hkey
    obtain ⟨-, row, hid, rfl⟩ := hfound rfl hkey
    exact ⟨row, hid, rfl⟩

theorem CalledAll.answers {calls : List TxCall} {xs : List AuditEntry} {replies : List Reply}
    (hrely : ∀ t free e, rely t free e → KeyHeld id queue key t)
    (hcs : Apart id queue key cs) (hp : ∀ call ∈ calls, call.task.status = .pending)
    (h : CalledAll rely b cs calls ds xs replies) :
    Apart id queue key ds ∧ List.Forall₂ (fun call reply => ∀ task,
      call = .saveIdempotentInTx task → task.HasKey queue key → Existing id reply) calls replies := by
  induction h with
  | nil => exact ⟨apart_nil, .nil⟩
  | cons hcall _ ih =>
    obtain ⟨hds, hreply⟩ := hcall.answers hrely hcs (hp _ List.mem_cons_self)
    obtain ⟨hes, hreplies⟩ := ih (hcs.append hds) fun call hc => hp call (List.mem_cons_of_mem _ hc)
    exact ⟨hds.append hes, .cons hreply hreplies⟩

/-- The changes of updates are no insertions. -/
theorem Answers.of_updates {op : Op} {reply : Reply} (hold : ∀ c ∈ cs, c.old ≠ none)
    (hidem : ∀ task, op ≠ .saveIdempotent task) (htx : ∀ calls commit, op ≠ .inTx calls commit) :
    Answers id queue key op cs reply :=
  ⟨fun c hc hn => absurd hn (hold c hc), fun task ho => absurd ho (hidem task),
    fun calls commit ho => absurd ho (htx calls commit)⟩

theorem UpdatedBy.old_ne_none {u : Update} (h : UpdatedBy rely b u cs ds) :
    ∀ d ∈ ds, d.old ≠ none := by
  intro d hd
  obtain ⟨r, hr, -⟩ := h.rewrites d hd
  simp [hr]

/-- **An operation answers submissions with the key of an unfinished task by that task.** -/
theorem Op.Spec.answers {op : Op} {ls : List AuditRow} {fin : Finish Reply}
    (hrely : ∀ t free e, rely t free e → KeyHeld id queue key t)
    (hp : ∀ task ∈ op.tasks, task.status = .pending) (h : Op.Spec rely a b op cs ls fin) :
    Answers id queue key op cs fin.reply := by
  -- only the submissions insert; the others have nothing to answer
  cases h with
  | save h =>
    obtain ⟨hds, -⟩ := h.answers hrely apart_nil (hp _ List.mem_cons_self)
    exact ⟨hds.inserts, by simp, by simp⟩
  | saveIdempotent h =>
    obtain ⟨hds, hfound⟩ := h.answers hrely apart_nil (hp _ List.mem_cons_self)
    refine ⟨hds.inserts, ?_, by simp⟩
    rintro task ⟨⟩ hkey
    obtain ⟨hnil, row, hid, rfl⟩ := hfound rfl hkey
    exact ⟨hnil, row, hid, rfl⟩
  | inTxCommit h | inTxRollback h =>
    obtain ⟨hds, hreplies⟩ := h.answers hrely apart_nil fun call hc => hp _ (List.mem_map_of_mem hc)
    refine ⟨hds.inserts, by simp, ?_⟩
    rintro calls commit ⟨⟩
    exact ⟨_, rfl, hreplies⟩
  | refused href =>
    have htr := href.transition.1
    exact .of_updates (by simp) (by rintro _ rfl; cases htr) (by rintro _ _ rfl; cases htr)
  | transition htr h =>
    exact .of_updates h.old_ne_none (by rintro _ rfl; cases htr) (by rintro _ _ rfl; cases htr)
  | recovered hds hes _ | notRecovered hds hes _ =>
    refine .of_updates (fun c hc => ?_) (by simp) (by simp)
    exact (List.mem_append.mp hc).elim (hds.old_ne_none c) (hes.old_ne_none c)
  | cleanup h | claimed h | releasedTask h | released h | cancelled h | expired h | written h =>
    exact .of_updates h.old_ne_none (by simp) (by simp)
  | _ => exact .of_updates (by simp) (by simp) (by simp)

end Submissions

section Held

variable {ok : List Outcome → System → Move → Prop} {os₁ os : List Outcome} {db₁ db : System}
  {T : TaskRow} {queue key : String}

/-- While it is unfinished, a task keeps its queue and its key. -/
theorem Runs.key_kept (h₁ : Runs ok .empty os₁ db₁) (hT : T ∈ db₁.table.rows)
    (ha : T.Active queue key) (h : Runs (While T.id) db₁ os db) :
    ∃ r, db.table.get T.id = some r ∧ r.queue = queue ∧ r.idempotencyKey = some key := by
  induction h with
  | init => exact ⟨T, Table.get_key_of_mem hT, ha.queue, ha.key⟩
  | @next os db ev db' o hr hok hs ih =>
    obtain ⟨r, hget, hq, hk⟩ := ih
    have hall : Runs (fun _ _ _ => True) .empty (os₁ ++ os) db :=
      Reaches.trans (Reaches.mono (fun _ _ _ _ => trivial) h₁)
        (Reaches.mono (fun _ _ _ _ => trivial) hr)
    rcases Runs.committed_step hall trivial hs T.id with ⟨-, hsame⟩ | ⟨x, hx, hold, hnew⟩
    · exact ⟨r, hsame.trans hget, hq, hk⟩
    · have hcause := Runs.caused (Reaches.next hall trivial hs) T.id x (by simp [history_append, hx])
      refine ⟨x.change.new, hnew, ?_⟩
      rw [hget] at hold
      generalize x.change = c at hcause hold
      cases hcause with
      | insert => cases hold
      | update _ hrw =>
        cases hold
        refine ⟨hrw.sameTask.queue.trans hq, ?_⟩
        -- the key is cleared from a finished row only
        rcases hrw.key with ⟨hkey, -⟩ | ⟨-, -, hterm⟩
        · exact hkey.trans hk
        · have hunf := hok.2
          simp [statusAt, hget, hterm] at hunf

/-- The statements of such a run meet tables in which the task holds the key. -/
theorem Runs.key_held (h₁ : Runs ok .empty os₁ db₁) (hT : T ∈ db₁.table.rows)
    (ha : T.Active queue key) (h : Runs (While T.id) db₁ os db) {ev : Move}
    (hok : While T.id os db ev) : KeyHeld T.id queue key db.table := by
  obtain ⟨r, hget, hq, hk⟩ := h₁.key_kept hT ha h
  obtain ⟨hmem, hid⟩ := Table.get_eq_some hget
  have hall : Runs (fun _ _ _ => True) .empty (os₁ ++ os) db :=
    Reaches.trans (Reaches.mono (fun _ _ _ _ => trivial) h₁)
      (Reaches.mono (fun _ _ _ _ => trivial) h)
  refine ⟨⟨r, hmem, hid, hq, hk, ?_⟩, hall.indexed.table⟩
  simpa [statusAt, hget] using hok.2

end Held

/-- A cleanup changes a row that has finished and whose key has expired. -/
theorem Runs.cleaned {ok : List Outcome → System → Move → Prop} {os : List Outcome} {db : System}
    (h : Runs ok .empty os db) {id : TaskId} {y : Entry} (hy : y ∈ history id os) {now : DateTime}
    (hop : y.call.op = .cleanupExpiredIdempotencyKeys now) :
    ∃ r, y.change.old = some r ∧ ∃ t, r.idempotencyExpiresAt = some t ∧
      t < DateTime.toTimestamp now ∧ r.status.isTerminal = true := by
  have hcause := h.caused id y hy
  rw [hop] at hcause
  generalize y.change = c at hcause
  cases hcause with
  | insert ht => cases ht
  | @update u r r' hu hrw =>
    obtain rfl := List.mem_singleton.mp hu
    cases hrw with
    | cleanupExpiredIdempotencyKeys ht hlt hterm => exact ⟨r, rfl, _, ht, hlt, hterm⟩

/-- **Submissions with the key of an unfinished task return that task.** From any state `db₁` of a
run from the empty store in which the task `T` is unfinished and has a queue and key, in every
continuation during which it stays unfinished: a transaction begun since `db₁` inserts no row with
the queue and key, and each submission with them replies the task `T`, not created, or the error
of its row where that cannot be decoded. Moreover, in every run from the empty store, the cleanup
changes finished tasks only, and one the scheduler has submitted only after the retention since
its submission. -/
theorem duplicate_submissions {ok : List Outcome → System → Move → Prop} {os₁ : List Outcome}
    {db₁ : System} (h₁ : Runs ok .empty os₁ db₁) :
    (∀ T ∈ db₁.table.rows, ∀ queue key, T.Active queue key → ∀ os db,
      Runs (While T.id) db₁ os db → ∀ sid, db₁.sessions.get sid = none →
        (∀ call b cs ls r, .committed sid call b cs ls r ∈ os →
          Answers T.id queue key call.op cs r) ∧
        ∀ call b r, .returned sid call b r ∈ os → ∃ cs, Answers T.id queue key call.op cs r) ∧
    ∀ id, ∀ y ∈ history id os₁, ∀ now, y.call.op = .cleanupExpiredIdempotencyKeys now →
      (∃ r, y.change.old = some r ∧ r.status.isTerminal = true) ∧
      ∀ pre x mid post submitted retention task lastError,
        history id os₁ = pre ++ x :: mid ++ y :: post →
        x.change = ⟨none, insertedRow x.began task lastError⟩ →
        EnqueuedAt submitted retention task →
        DateTime.toTimestamp (submitted + retention) < DateTime.toTimestamp now := by
  refine ⟨fun T hT queue key ha os db h sid hsid => ?_, fun id y hy now hop => ⟨?_, ?_⟩⟩
  · have hx : db₁.Exclusive := Reaches.exclusive (Db.exclusive_idle _ _ _) h₁
    have hopen : ∀ s ∈ db₁.sessions.rows, ¬ db₁.sessions.get s.id = none := fun s hs hn => by
      simp [Table.get_key_of_mem hs] at hn
    have hspec := h.spec (fun t _ _ => KeyHeld T.id queue key t)
      (fun sid => db₁.sessions.get sid = none) hx hopen
      fun _ _ _ _ hr hok _ => h₁.key_held hT ha hr hok
    have hstart := Reaches.started (P := fun call _ => call.SavesPending)
      (fun sid => db₁.sessions.get sid = none) hx hopen (fun _ _ _ _ _ hok => hok.1) h
    refine ⟨fun call b cs ls r ho => ?_, fun call b r ho => ?_⟩
    · exact (hspec _ ho hsid).answers (fun _ _ _ ht => ht) (hstart _ ho hsid)
    · obtain ⟨cs, ls, hret⟩ := hspec _ ho hsid
      obtain ⟨-, -, hp⟩ := hstart _ ho hsid
      exact ⟨cs, hret.answers (fun _ _ _ ht => ht) hp⟩
  · obtain ⟨r, hold, t, -, -, hterm⟩ := Runs.cleaned h₁ hy hop
    exact ⟨r, hold, hterm⟩
  · intro pre x mid post submitted retention task lastError hxy hx hsub
    obtain ⟨r, hold, t, ht, hlt, -⟩ := Runs.cleaned h₁ hy hop
    -- the expiry of a row stays what the submission has set, until a cleanup clears it
    have hkeep := (Runs.linked_between h₁ hxy).keeps
      (P := fun o => ∃ r, o = some r ∧ ∀ t, r.idempotencyExpiresAt = some t →
        t = DateTime.toTimestamp (submitted + retention)) ⟨_, rfl, fun t ht => ?_⟩ ?_
    · obtain ⟨⟨r', hr', hexp⟩, -⟩ := hkeep
      cases hold.symm.trans hr'
      exact hexp t ht ▸ hlt
    · rw [hx] at ht
      obtain ⟨e, he, rfl⟩ := Option.map_eq_some_iff.mp ht
      rw [hsub.expires he]
    · rintro c hc ⟨r, hr, hexp⟩
      obtain ⟨z, hz, rfl⟩ := List.mem_map.mp hc
      have hcause := Runs.caused h₁ id z (by simp [hxy, hz])
      refine ⟨_, rfl, fun t ht => ?_⟩
      generalize z.change = c at hcause hr ht
      cases hcause with
      | insert => cases hr
      | update _ hrw =>
        cases hr
        rcases hrw.key with ⟨-, hsame⟩ | ⟨-, hnone, -⟩
        · exact hexp t (hsame ▸ ht)
        · simp [hnone] at ht

/-- What a submission replies: the id of the task, and whether it was created. -/
def Outcome.created (o : Outcome) : Option (TaskId × Bool) :=
  match o.reply with
  | some (.ok (.saved record created)) => some (record.id, created)
  | _ => none

/-- The moves of one submission with the key. -/
def keyedMoves (uuid : ℕ) (es : List Env) : List Move :=
  serve uuid (callOf (.saveIdempotent (sampleKeyed uuid))) 0 es

/-- In the sample, the second submission finds the first task. -/
theorem duplicate_answered : ∃ os db,
    Runs (While ⟨1⟩) (System.after (keyedMoves 1 [.all])) os db ∧
      os.filterMap Outcome.created = [(⟨1⟩, false)] ∧
      ∀ call b cs ls r, .committed 2 call b cs ls r ∈ os →
        Answers ⟨1⟩ "default" "key" call.op cs r := by
  have h₁ : Runs (fun _ _ _ => True) .empty (System.shown (keyedMoves 1 [.all]))
      (System.after (keyedMoves 1 [.all])) :=
    Runs.of_moves _ (by decide +kernel) (by decide +kernel)
  have hrows : (System.after (keyedMoves 1 [.all])).table.rows.map
      (fun r => (r.id, idempotencyIndex r)) = [(⟨1⟩, some ("default", "key"))] := by decide +kernel
  obtain ⟨T, rs, hrs, hT, -⟩ := List.map_eq_cons_iff.mp hrows
  obtain ⟨hid, hidx⟩ := Prod.mk.inj hT
  have h : Runs (While ⟨1⟩) (System.after (keyedMoves 1 [.all])) _ _ :=
    Runs.resume (keyedMoves 2 [.all, .all]) (by decide +kernel) (by decide +kernel)
  refine ⟨_, _, h, by decide +kernel, ?_⟩
  have hfree : (System.after (keyedMoves 1 [.all])).sessions.get 2 = none :=
    Option.isNone_iff_eq_none.mp (by decide +kernel)
  have hans := (duplicate_submissions h₁).1 T (by simp [hrs]) "default" "key"
    (TaskRow.active_iff.mpr hidx) _ _ (hid ▸ h) 2 hfree
  rw [hid] at hans
  exact hans.1

/-- The task is submitted with a key, claimed and completed; the same key is submitted again. -/
def reusedMoves : List Move :=
  serve 1 (callOf (.saveIdempotent (sampleKeyed 1))) 0 [.all] ++
  serve 2 (callOf (.claimNext sampleQueue sampleWorker 1000000000 none)) 10 [.all] ++
  serve 3 (callOf (.complete ⟨1⟩)) 20 [.all] ++
  serve 4 (callOf (.saveIdempotent (sampleKeyed 2))) 30 [.all]

/-- **A key is used again right after completion**: the task completes at 20 µs, its key is retained
for an hour, and the submission at 30 µs creates a second task with it. -/
theorem key_reused_after_completion :
    (System.shown reusedMoves).filterMap Outcome.created = [(⟨1⟩, true), (⟨2⟩, true)] ∧
      (System.after reusedMoves).table.rows.map
          (fun r => (r.id, r.status, r.updatedAt, r.idempotencyKey, r.idempotencyExpiresAt)) =
        [(⟨1⟩, .completed, 20, some "key", some 3600000000),
          (⟨2⟩, .pending, 30, some "key", some 3600000000)] := by
  decide +kernel

end IronDefer
