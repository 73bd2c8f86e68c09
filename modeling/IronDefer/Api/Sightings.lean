import IronDefer.Api.Refusals
import IronDefer.Infrastructure.AuditEntries
import IronDefer.Infrastructure.QueueRefinement
import IronDefer.Infrastructure.Statistics
import IronDefer.RowStore.Server

/-!
# Nobody sees a task go back

Answers show tasks: a submission the task it has inserted or found, a claim, an outcome, a signal and
a cancellation the task they have changed, a lookup the task it has found. Of two calls, by whatever
clients, the second of which begins after the first has been answered, the second shows a later
version of the same task, or the same one; and it does not tell that a task that has been shown is
not there. Neither is evident of a lookup: it reads at one instant of its transaction, and the
fallback of an idempotent submission reads in its second statement.

## Main definitions

* `Response.shown`, `Outcome.shown`: the task that an answer shows
* `Op.Misses`, `Outcome.Misses`: the answer tells that a task is not there
* `Later`: a task is a later version of another

## Main results

* `Runs.version_of_shown`: what is shown is a version of the task at an instant of the call
* `sightings_advance`: **what is shown of a task advances**, and a task that has been shown stays
-/

namespace IronDefer

open RowStore

/-! ## What is shown -/

/-- The task that a response shows. -/
def Response.shown : Response → Option TaskRecord
  | task record | saved record _ | claimed (some record) | cancel (.cancelled record) |
    found (some record) => some record
  | _ => none

/-- The task that the answer of a call shows. -/
def Outcome.shown (o : Outcome) : Option TaskRecord :=
  match o.reply with
  | some (.ok x) => x.shown
  | _ => none

/-- The reply to an operation tells that a task is not there. -/
inductive Op.Misses (id : TaskId) : Op → Reply → Prop
  | findById : Misses id (.findById id) (.ok (.found none))
  | cancel : Misses id (.cancel id) (.ok (.cancel .notFound))
  | signal {payload} : Misses id (.signal id payload) (.error (.notFound id))

/-- The answer of a call tells that a task is not there. -/
def Outcome.Misses (o : Outcome) (id : TaskId) : Prop :=
  ∃ call reply, o.op = some call ∧ o.reply = some reply ∧ call.op.Misses id reply

/-- A task is a later version of another: what never changes agrees, and the life of the one leads to
that of the other. -/
structure Later (x y : TaskRecord) : Prop where
  id : y.id = x.id
  queue : y.queue = x.queue
  kind : y.kind = x.kind
  payload : y.payload = x.payload
  priority : y.priority = x.priority
  maxAttempts : y.maxAttempts = x.maxAttempts
  createdAt : y.createdAt = x.createdAt
  traceId : y.traceId = x.traceId
  region : y.region = x.region
  path : ∃ p, Life.Path (some x.job.life) p (some y.job.life)

/-- The attempts of a later version are no fewer. -/
theorem Later.attempts_le {x y : TaskRecord} (h : Later x y) :
    x.attempts.get.val ≤ y.attempts.get.val := by
  obtain ⟨p, hp⟩ := h.path
  exact hp.attempts_le

/-- Versions of a row are shown as versions of the task. -/
theorem later_of_rows {r w : TaskRow} {x y : TaskRecord} (hx : TaskRecord.tryFrom r = .ok x)
    (hy : TaskRecord.tryFrom w = .ok y) (hsame : SameTask r w)
    (hpath : ∃ p, Life.Path (some r.life) p (some w.life)) : Later x y := by
  obtain ⟨hr, rfl⟩ := tryFrom_eq_ok_iff.mp hx
  obtain ⟨hw, rfl⟩ := tryFrom_eq_ok_iff.mp hy
  exact {
    id := hsame.id
    queue := asStr_eq_iff.mp hsame.queue
    kind := by simp [TaskRow.record, hsame.kind]
    payload := hsame.payload
    priority := congrArg Priority.mk hsame.priority
    maxAttempts := by simp [TaskRow.record, hsame.maxAttempts]
    createdAt := congrArg Timestamp.toDateTime hsame.createdAt
    traceId := hsame.traceId
    region := hsame.region
    path := hpath }

/-! ## Versions -/

section Versions

variable {ok : List Outcome → System → Move → Prop} {t : Table TaskRow.id}
  {log : List (ℕ × AuditRow)} {n : ℕ} {os ps : List Outcome} {db d : System} {id : TaskId}

/-- **A version of a row leads to those after it**: where a run has the row after some of its
outputs, it has a version of the same task at its end. -/
theorem Runs.version_later (h : Runs ok (.idle t log n) (os ++ ps) db)
    (h₀ : Runs ok (.idle t log n) os d) {r : TaskRow} (hr : d.table.get id = some r) :
    ∃ w, db.table.get id = some w ∧ SameTask r w ∧
      ∃ p, Life.Path (some r.life) p (some w.life) := by
  have hlink := h.history_linked id
  have hlink₀ := h₀.history_linked id
  rw [history_append, List.map_append] at hlink
  obtain ⟨m, hm, hrest⟩ := linked_append.mp hlink
  -- the outputs determine the version
  obtain rfl : m = some r := (hm.unique hlink₀).trans hr
  have hsub : ∀ x ∈ history id ps, x ∈ history id (os ++ ps) := fun x hx => by
    rw [history_append]
    exact List.mem_append_right _ hx
  obtain ⟨w, hw, hpath⟩ := h.path_from id hsub hrest
  have hsame : ∃ w', db.table.get id = some w' ∧ SameTask r w' := by
    refine (hrest.keeps (P := fun o => ∃ w', o = some w' ∧ SameTask r w')
      ⟨r, rfl, SameTask.refl r⟩ ?_).1
    rintro c hc ⟨w', hold, hsame⟩
    obtain ⟨x, hx, rfl⟩ := List.mem_map.mp hc
    obtain ⟨u, -, hrw⟩ := (h.caused id x (hsub x hx)).of_some hold
    exact ⟨_, rfl, hsame.trans hrw.sameTask⟩
  obtain ⟨w', hw', hsame⟩ := hsame
  obtain rfl : w' = w := Option.some.inj (hw'.symm.trans hw)
  exact ⟨w', hw, hsame, _, hpath⟩

end Versions

/-! ## What an answer shows -/

section Answers

variable {rely : Table TaskRow.id → (TaskId → Bool) → Env → Prop} {a : Bool} {b : Began} {op : Op}
  {cs : List (Change TaskRow)} {ls : List AuditRow}

/-- The task is decoded from a row the transaction has written, or from one it may have seen. -/
def Sighted (rely : Table TaskRow.id → (TaskId → Bool) → Env → Prop) (cs : List (Change TaskRow))
    (record : TaskRecord) : Prop :=
  ∃ r, TaskRecord.tryFrom r = .ok record ∧
    ((∃ c ∈ cs, c.new = r) ∨ ∃ t free e, rely t free e ∧ r ∈ t.rows)

theorem SelectedBy.mem {p : TaskRow → Bool} {r : TaskRow} (h : SelectedBy rely p [] (some r)) :
    ∃ t free e, rely t free e ∧ r ∈ t.rows := by
  obtain ⟨t, e, free, hrely, -, hfind⟩ := h
  exact ⟨t, free, e, hrely, List.mem_of_find?_eq_some hfind⟩

theorem SelectedBy.get_eq_none {id : TaskId}
    (h : SelectedBy rely (fun r => decide (r.id = id)) [] none) :
    ∃ t free e, rely t free e ∧ t.get id = none := by
  obtain ⟨t, e, free, hrely, -, hfind⟩ := h
  exact ⟨t, free, e, hrely, hfind⟩

theorem sighted_of_written {c : Change TaskRow} {f : TaskRecord → Response} {x : Response}
    {record : TaskRecord} (hshown : x.shown = some record) (hf : ∀ y, (f y).shown = some y)
    (hx : (TaskRecord.tryFrom c.new).map f = .ok x) : Sighted rely [c] record := by
  obtain ⟨y, hy, rfl⟩ := eq_of_map_eq_ok hx
  obtain rfl := Option.some.inj ((hf y).symm.trans hshown)
  exact ⟨c.new, hy, .inl ⟨c, List.mem_cons_self, rfl⟩⟩

theorem sighted_of_seen {r : TaskRow} {f : TaskRecord → Response} {x : Response}
    {record : TaskRecord} (hshown : x.shown = some record) (hf : ∀ y, (f y).shown = some y)
    (hr : ∃ t free e, rely t free e ∧ r ∈ t.rows) (hx : (TaskRecord.tryFrom r).map f = .ok x) :
    Sighted rely cs record := by
  obtain ⟨y, hy, rfl⟩ := eq_of_map_eq_ok hx
  obtain rfl := Option.some.inj ((hf y).symm.trans hshown)
  exact ⟨r, hy, .inr hr⟩

/-- **What an answer shows has been written or seen.** -/
theorem Op.Spec.sighted {x : Response} {record : TaskRecord} (hshown : x.shown = some record)
    (h : Op.Spec rely a b op cs ls (.commit (.ok x))) : Sighted rely cs record := by
  generalize hr : (Except.ok x : Reply) = reply at h
  cases h with
  | save h =>
    cases h with
    | new => exact sighted_of_written hshown (fun _ => rfl) hr.symm
  | saveIdempotent h =>
    cases h with
    | new => exact sighted_of_written hshown (fun _ => rfl) hr.symm
    | old _ hsel => exact sighted_of_seen hshown (fun _ => rfl) hsel.mem hr.symm
    | gone => cases hr
  | found hsel => exact sighted_of_seen hshown (fun _ => rfl) hsel.mem hr.symm
  | claimed | transition | cancelled => exact sighted_of_written hshown (fun _ => rfl) hr.symm
  | expired =>
    obtain ⟨ts, -, rfl⟩ := eq_of_map_eq_ok hr.symm
    cases hshown
  | notWritten => cases hr
  | _ => cases hr; cases hshown

/-- **Who tells that a task is not there has not found it.** -/
theorem Op.Spec.missed {id : TaskId} {fin : Finish Reply} (hmiss : op.Misses id fin.reply)
    (h : Op.Spec rely a b op cs ls fin) : ∃ t free e, rely t free e ∧ t.get id = none := by
  generalize hr : fin.reply = reply at hmiss
  cases hmiss with
  | findById =>
    cases h with
    | notFound hsel => exact hsel.get_eq_none
    | found =>
      obtain ⟨y, -, hy⟩ := eq_of_map_eq_ok hr
      cases hy
    | refused href => cases href
    | transition htr => cases htr
  | cancel =>
    cases h with
    | cancelNotFound hsel => exact hsel.get_eq_none
    | cancelled =>
      obtain ⟨y, -, hy⟩ := eq_of_map_eq_ok hr
      cases hy
    | notCancellable => cases hr
    | refused href => cases href
    | transition htr => cases htr
  | signal =>
    cases h with
    | refused href =>
      cases hr
      cases href with
      | notFound _ hsel => exact hsel.get_eq_none
      | payload hp =>
        unfold checkSignalPayload at hp
        repeat' split at hp
        all_goals cases hp
    | transition =>
      obtain ⟨source, hsource⟩ := accepts_of_tryFrom _ hr
      cases hsource

end Answers

/-! ## Two calls -/

section Calls

variable {ok ok' : List Outcome → System → Move → Prop} {t : Table TaskRow.id}
  {log : List (ℕ × AuditRow)} {n : ℕ} {os ps : List Outcome} {db d : System} {o : Outcome}
  {sid : ℕ}

/-- What a transaction may see that begins after the outputs `os`: the table that some of the
outputs `ps` after these have led to. -/
def SeenSince (t : Table TaskRow.id) (log : List (ℕ × AuditRow)) (n : ℕ) (os ps : List Outcome)
    (u : Table TaskRow.id) : Prop :=
  ∃ ps₀ d, ps₀ <+: ps ∧ Runs (fun _ _ _ => True) (.idle t log n) (os ++ ps₀) d ∧ d.table = u

/-- A transaction that begins after the outputs `os` ends in one of the ways of its specification,
and sees what there has been since. -/
theorem Runs.spec_since (h : Runs ok (.idle t log n) os db) (h' : Runs ok' db ps d)
    (hnew : db.sessions.get sid = none) : ∀ o ∈ ps,
      o.Specified (fun u _ _ => SeenSince t log n os ps u) fun s => s = sid := by
  have hpre : ∀ (ps₀ : List Outcome) (o : Outcome), ps₀ ++ [o] <+: ps → ps₀ <+: ps :=
    fun ps₀ o hp => (List.prefix_append ps₀ [o]).trans hp
  have hrestrict := h'.restrict (P := (· <+: ps)) hpre List.prefix_rfl
  refine Runs.spec _ _ (h.exclusive (Db.exclusive_idle t log n)) ?_ ?_ hrestrict
  · intro s hs hid
    exact Table.get_eq_none_iff.mp hnew s hs hid
  · intro ps₀ d₀ s e hr hok hid
    refine ⟨ps₀, d₀, hok.2, ?_, rfl⟩
    exact (h.mono fun _ _ _ _ => trivial).trans (hr.mono fun _ _ _ _ => trivial)

/-- **What an answer shows is a version of the task at an instant of the call.** -/
theorem Runs.version_of_shown (h : Runs ok (.idle t log n) os db) (h' : Runs ok' db ps d)
    (hnew : db.sessions.get sid = none) (ho : o ∈ ps) (hsid : o.sid? = some sid) {x : TaskRecord}
    (hx : o.shown = some x) : ∃ u, SeenSince t log n os ps u ∧
      ∃ r, u.get x.id = some r ∧ TaskRecord.tryFrom r = .ok x := by
  have hspec := h.spec_since h' hnew o ho
  cases o with
  | silent | failed => cases hx
  | returned sid' call b reply =>
    -- what is rolled back and answered with a response is a batch
    obtain ⟨cs, ls, hspec⟩ := hspec (Option.some.inj hsid)
    obtain ⟨a, op, onBehalf⟩ := call
    cases hspec with
    | inTxRollback | refused | notReleased | notRecovered => cases hx
  | committed sid' call b cs ls reply =>
    obtain ⟨resp, rfl⟩ : ∃ resp, reply = .ok resp := by
      cases reply with
      | ok resp => exact ⟨resp, rfl⟩
      | error e => cases hx
    obtain ⟨r, hr, hrow⟩ := (hspec (Option.some.inj hsid)).sighted hx
    rcases hrow with ⟨c, hc, rfl⟩ | ⟨u, -, -, hseen, hmem⟩
    · -- the row has been written, and is in the table with the commit
      obtain ⟨pre, suf, rfl⟩ := List.append_of_mem ho
      have hrun : Runs (fun _ _ _ => True) (.idle t log n) _ _ :=
        (h.mono fun _ _ _ _ => trivial).trans (h'.mono fun _ _ _ _ => trivial)
      have hsplit : os ++ (pre ++ .committed sid' call b cs ls (.ok resp) :: suf) =
          (os ++ pre ++ [.committed sid' call b cs ls (.ok resp)]) ++ suf := by simp
      rw [hsplit] at hrun
      obtain ⟨d₀, hrun⟩ := hrun.of_append
      refine ⟨d₀.table, ⟨pre ++ [.committed sid' call b cs ls (.ok resp)], d₀, ⟨suf, by simp⟩,
        by simpa using hrun, rfl⟩, c.new, ?_, hr⟩
      obtain ⟨-, rfl⟩ := tryFrom_eq_ok_iff.mp hr
      exact Runs.get_of_last hrun hc
    · refine ⟨u, hseen, r, ?_, hr⟩
      obtain ⟨-, rfl⟩ := tryFrom_eq_ok_iff.mp hr
      exact Table.get_key_of_mem hmem

/-- What has been shown of a task is there from then on, in versions of the same task. -/
theorem Runs.shown_stays (h : Runs ok (.idle t log n) os db) (ho : o ∈ os)
    (hsid : o.sid? = some sid) {x : TaskRecord} (hx : o.shown = some x) :
    ∃ r, TaskRecord.tryFrom r = .ok x ∧ ∀ {qs u}, SeenSince t log n os qs u →
      ∃ w, u.get x.id = some w ∧ SameTask r w ∧ ∃ p, Life.Path (some r.life) p (some w.life) := by
  have hinit : Runs ok (.idle t log n) [] (.idle t log n) := .init
  -- the task is a version that the outputs up to some instant of its call have led to
  obtain ⟨_, ⟨os₀, d₀, ⟨os₁, rfl⟩, hr₀, rfl⟩, r, hget, hrx⟩ :=
    hinit.version_of_shown h rfl ho hsid hx
  refine ⟨r, hrx, ?_⟩
  rintro qs _ ⟨ps₀, d₁, -, hr₁, rfl⟩
  rw [List.append_assoc] at hr₁
  exact hr₁.version_later (by simpa using hr₀) hget

variable {o' : Outcome} {sid' : ℕ}

/-- A call that begins later shows a later version. -/
theorem Runs.later_of_shown (h : Runs ok (.idle t log n) os db) (h' : Runs ok' db ps d)
    (ho : o ∈ os) (hsid : o.sid? = some sid) (ho' : o' ∈ ps) (hsid' : o'.sid? = some sid')
    (hnew : db.sessions.get sid' = none) {x y : TaskRecord} (hx : o.shown = some x)
    (hy : o'.shown = some y) (hid : y.id = x.id) : Later x y := by
  obtain ⟨r, hrx, hstays⟩ := h.shown_stays ho hsid hx
  obtain ⟨u, hseen, w, hw, hwy⟩ := h.version_of_shown h' hnew ho' hsid' hy
  obtain ⟨w', hw', hsame, hpath⟩ := hstays hseen
  rw [hid, hw'] at hw
  obtain rfl := Option.some.inj hw
  exact later_of_rows hrx hwy hsame hpath

/-- A call that begins later does not miss the task. -/
theorem Runs.not_misses_of_shown (h : Runs ok (.idle t log n) os db) (h' : Runs ok' db ps d)
    (ho : o ∈ os) (hsid : o.sid? = some sid) (ho' : o' ∈ ps) (hsid' : o'.sid? = some sid')
    (hnew : db.sessions.get sid' = none) {x : TaskRecord} (hx : o.shown = some x) :
    ¬ o'.Misses x.id := by
  rintro ⟨call, reply, hop, hreply, hmiss⟩
  obtain ⟨r, -, hstays⟩ := h.shown_stays ho hsid hx
  have hspec := h.spec_since h' hnew o' ho'
  obtain ⟨u, -, -, hseen, hnone⟩ : ∃ u free e, (fun u _ _ => SeenSince t log n os ps u :
      Table TaskRow.id → (TaskId → Bool) → Env → Prop) u free e ∧ u.get x.id = none := by
    cases o' with
    | silent | failed => cases hreply
    | committed =>
      cases hop
      cases hreply
      exact (hspec (Option.some.inj hsid')).missed hmiss
    | returned =>
      cases hop
      cases hreply
      obtain ⟨cs, ls, hspec⟩ := hspec (Option.some.inj hsid')
      exact hspec.missed hmiss
  obtain ⟨w, hw, -⟩ := hstays hseen
  rw [hnone] at hw
  cases hw

end Calls

/-- **What is shown of a task advances.** A call has been answered with a task, and another begins,
of any client, whatever goes on besides. What the second shows of that task is a later version of
it, and it does not tell that the task is not there. -/
theorem sightings_advance {ok ok' : List Outcome → System → Move → Prop} {t : Table TaskRow.id}
    {log : List (ℕ × AuditRow)} {n : ℕ} {os ps : List Outcome} {db d : System}
    (h : Runs ok (.idle t log n) os db) (h' : Runs ok' db ps d) {o o' : Outcome} {sid sid' : ℕ}
    (ho : o ∈ os) (hsid : o.sid? = some sid) (ho' : o' ∈ ps) (hsid' : o'.sid? = some sid')
    (hnew : db.sessions.get sid' = none) {x : TaskRecord} (hx : o.shown = some x) :
    (∀ y, o'.shown = some y → y.id = x.id → Later x y) ∧ ¬ o'.Misses x.id :=
  ⟨fun _ hy hid => h.later_of_shown h' ho hsid ho' hsid' hnew hx hy hid,
    h.not_misses_of_shown h' ho hsid ho' hsid' hnew hx⟩

/-- The sample task is submitted. -/
def storeMoves : List Move := serve 1 (callOf (.save (sampleTask .default))) 0 [.all]

/-- It is claimed, and is looked up after that. -/
def lookupMoves : List Move :=
  serve 2 (callOf (.claimNext sampleQueue sampleWorker 1000000000 none)) 10 [.all] ++
  serve 3 (callOf (.findById ⟨1⟩)) 20 [.all]

/-- Some answer of a transaction shows the sample task in a state. -/
def showsSample (os : List Outcome) (sid : ℕ) (status : TaskStatus) : Bool :=
  os.any fun o => o.sid? = some sid && o.shown.any fun x => x.id = ⟨1⟩ && x.status = status

theorem of_showsSample {os : List Outcome} {sid : ℕ} {status : TaskStatus}
    (h : showsSample os sid status = true) :
    ∃ o ∈ os, o.sid? = some sid ∧ ∃ x, o.shown = some x ∧ x.id = ⟨1⟩ ∧ x.status = status := by
  obtain ⟨o, ho, h⟩ := List.any_eq_true.mp h
  rw [Bool.and_eq_true, decide_eq_true_eq, Option.any_eq_true] at h
  obtain ⟨hsid, x, hx, h⟩ := h
  rw [Bool.and_eq_true, decide_eq_true_eq, decide_eq_true_eq] at h
  exact ⟨o, ho, hsid, x, hx, h.1, h.2⟩

/-- The sample task, which a submission has shown as pending, is shown as running by a lookup that
begins later: that is a later version of it. -/
theorem claim_sighted : ∃ o ∈ System.shown storeMoves,
    ∃ o' ∈ ((System.after storeMoves).resume lookupMoves).2, ∃ x y,
      o.shown = some x ∧ o'.shown = some y ∧ x.status = .pending ∧ y.status = .running ∧
        Later x y ∧ ¬ o'.Misses x.id := by
  have h : Runs (fun _ _ _ => True) .empty (System.shown storeMoves) (System.after storeMoves) :=
    Runs.of_moves _ (.of_forall (fun _ _ _ => trivial) ..) (by decide +kernel)
  have h' : Runs (fun _ _ _ => True) (System.after storeMoves)
      ((System.after storeMoves).resume lookupMoves).2 _ :=
    Runs.resume lookupMoves (.of_forall (fun _ _ _ => trivial) ..) (by decide +kernel)
  obtain ⟨o, ho, hsid, x, hx, hid, hpending⟩ :=
    of_showsSample (show showsSample (System.shown storeMoves) 1 .pending = true by decide +kernel)
  obtain ⟨o', ho', hsid', y, hy, hid', hrunning⟩ :=
    of_showsSample (show showsSample ((System.after storeMoves).resume lookupMoves).2 3 .running =
      true by decide +kernel)
  have hnew : (System.after storeMoves).sessions.get 3 = none :=
    Option.isNone_iff_eq_none.mp (by decide +kernel)
  obtain ⟨hlater, hmiss⟩ := sightings_advance h h' ho hsid ho' hsid' hnew hx
  exact ⟨o, ho, o', ho', x, y, hx, hy, hpending, hrunning, hlater y hy (hid'.trans hid.symm), hmiss⟩

end IronDefer
