import IronDefer.Infrastructure.Atomicity
import IronDefer.Infrastructure.Idempotency
import IronDefer.Infrastructure.RowInvariant
import IronDefer.RowStore.Served

/-!
# Operations served undisturbed

What the statements of an operation do that is served while nobody else calls, on any rows the
constraints of the table admit. An update rewrites its targets unless a value is out of range, and
an audit write appends its row unless cutting the trace id panics.

## Main definitions

* `Constrained`, `Store`: the rows the constraints of the tasks table admit
* `Store.single`: the table with one row
* `Served`: a call of the repository is served undisturbed
* `Loggable`: the audit write of a trace id does not panic

## Main results

* `served_iff`: a call is served as its transaction executes
* `Runs.constrained`: the tables of every run are admitted
* `Constrained.put`: what an update writes, the constraints admit
* `execUpdate_of_scan`, `execUpdate_of_key`: what an update writes
* `executes_update`, `executes_selectById`, `executes_insertAuditRow`,
  `executes_forM_insertAuditRow`: what the statements do
-/

namespace IronDefer

open RowStore

/-! ## The constraints -/

/-- The rows the constraints of the tasks table admit. -/
structure Constrained (t : Table TaskRow.id) : Prop where
  kind : ∀ r ∈ t.rows, r.kind.isEmpty = false
  claim : ∀ r ∈ t.rows, r.claimedBy.isSome = r.claimedUntil.isSome
  index : Unique TaskRow.id idempotencyIndex t.rows

/-- A tasks table. -/
structure Store where
  table : Table TaskRow.id
  constrained : Constrained table

/-- **The tables of every run are admitted.** -/
theorem Runs.constrained {P : Call → Prop} {os : List Outcome} {db : System}
    (h : Runs (Calls P) .empty os db) : Constrained db.table where
  kind := by
    have hrows := Runs.allRows (I := fun r => r.kind.isEmpty = false) h (by simp)
      (fun _ _ _ _ _ _ task _ _ _ => task.kind.nonempty)
      fun _ _ _ _ hrw hkind => hrw.sameTask.kind ▸ hkind
    exact hrows.1.1
  claim := (Runs.claim h).1.1
  index := h.indexed.table

section Constrained

variable {t : Table TaskRow.id} {b : Began} {e : Env} {u : Update} {r r' : TaskRow}

theorem checkClaimFields_eq_ok (h : r.claimedBy.isSome = r.claimedUntil.isSome) :
    checkClaimFields r = .ok () := if_pos h

theorem checkIndex_eq_ok {rows : List TaskRow}
    (h : ∀ w ∈ rows, Clash idempotencyIndex r w → w.id = r.id) : checkIndex rows r = .ok () := by
  apply if_neg
  intro hany
  obtain ⟨w, hw, hc⟩ := List.any_eq_true.mp hany
  simp only [Bool.and_eq_true, decide_eq_true_eq] at hc
  exact hc.1 (h w hw (clashes_iff.mp hc.2))

/-- A new version of a stored row shares its index value with no other row. -/
theorem Constrained.index_rewritten (h : Constrained t) (hr : r ∈ t.rows)
    (hrw : Update.Rewrites b u r r') :
    ∀ w ∈ t.rows, Clash idempotencyIndex r' w → w.id = r'.id := by
  intro w hw hc
  rcases hrw.index with hnone | hsame
  · exact absurd hnone hc.2
  · rw [hrw.sameTask.id]
    exact (h.index r hr w hw ⟨hsame ▸ hc.1, hsame ▸ hc.2⟩).symm

/-- **What an update writes, the constraints admit.** -/
theorem Constrained.put (h : Constrained t) (hr : r ∈ t.rows) (hrw : Update.Rewrites b u r r') :
    Constrained (t.put r') where
  kind w hw := by
    rcases Table.mem_put.mp hw with rfl | ⟨hw, -⟩
    · rw [hrw.sameTask.kind]
      exact h.kind r hr
    · exact h.kind w hw
  claim w hw := by
    rcases Table.mem_put.mp hw with rfl | ⟨hw, -⟩
    · exact hrw.claim (h.claim r hr)
    · exact h.claim w hw
  index v hv w hw hc := by
    rcases Table.mem_put.mp hv with rfl | ⟨hvt, -⟩
    · rcases Table.mem_put.mp hw with rfl | ⟨hwt, -⟩
      · rfl
      · exact (h.index_rewritten hr hrw w hwt hc).symm
    · rcases Table.mem_put.mp hw with rfl | ⟨hwt, -⟩
      · exact h.index_rewritten hr hrw v hvt hc.symm
      · exact h.index v hvt w hwt hc

/-- A table whose rows are rewritten rows of an admitted one is admitted. -/
theorem Constrained.map (h : Constrained t) {t' : Table TaskRow.id} {f : TaskRow → TaskRow}
    (hf : ∀ r ∈ t.rows, f r = r ∨ ∃ u, Update.Rewrites b u r (f r))
    (hrows : t'.rows = t.rows.map f) :
    Constrained t' := by
  have hmem : ∀ w ∈ t'.rows, ∃ r ∈ t.rows, f r = w := fun w hw => by
    rw [hrows] at hw
    exact List.mem_map.mp hw
  have hindex : ∀ r ∈ t.rows, (idempotencyIndex (f r)) = none ∨
      idempotencyIndex (f r) = idempotencyIndex r := by
    intro r hr
    rcases hf r hr with heq | ⟨u, hrw⟩
    · exact .inr (congrArg idempotencyIndex heq)
    · exact hrw.index
  have hid : ∀ r ∈ t.rows, (f r).id = r.id := by
    intro r hr
    rcases hf r hr with heq | ⟨u, hrw⟩
    · exact congrArg TaskRow.id heq
    · exact hrw.sameTask.id
  refine ⟨fun w hw => ?_, fun w hw => ?_, fun v hv w hw hc => ?_⟩
  · obtain ⟨r, hr, rfl⟩ := hmem w hw
    rcases hf r hr with heq | ⟨u, hrw⟩
    · rw [heq]
      exact h.kind r hr
    · rw [hrw.sameTask.kind]
      exact h.kind r hr
  · obtain ⟨r, hr, rfl⟩ := hmem w hw
    rcases hf r hr with heq | ⟨u, hrw⟩
    · rw [heq]
      exact h.claim r hr
    · exact hrw.claim (h.claim r hr)
  · obtain ⟨x, hx, rfl⟩ := hmem v hv
    obtain ⟨y, hy, rfl⟩ := hmem w hw
    -- a row that has an index value after the rewriting had the same before
    have hxi := (hindex x hx).resolve_left hc.2
    have hyi := (hindex y hy).resolve_left fun hnone => hc.2 (hc.1.trans hnone)
    have hclash : Clash idempotencyIndex x y := ⟨hxi ▸ hyi ▸ hc.1, hxi ▸ hc.2⟩
    rw [hid x hx, hid y hy]
    exact h.index x hx y hy hclash

/-- Where the constraints hold, only the values of a new version are checked. -/
theorem Constrained.rewrite_eq (h : Constrained t) (hr : r ∈ t.rows)
    (hs : u.selects b r = true) : rewrite b e t.rows u r = u.set b e r := by
  unfold rewrite
  cases hset : u.set b e r with
  | error err => rfl
  | ok r' =>
    have hrw := Update.rewrites_of_set hs hset
    have hclaim := checkClaimFields_eq_ok (hrw.claim (h.claim r hr))
    have hindex := checkIndex_eq_ok (h.index_rewritten hr hrw)
    simp [hclaim, hindex, bind, Except.bind, pure, Except.pure]

end Constrained

/-- The table with one row. -/
def Store.single (r : TaskRow) (hkind : r.kind.isEmpty = false)
    (hclaim : r.claimedBy.isSome = r.claimedUntil.isSome) : Store where
  table := (∅ : Table TaskRow.id).put r
  constrained :=
    have hone : ∀ w ∈ ((∅ : Table TaskRow.id).put r).rows, w = r := fun w hw =>
      (Table.mem_put.mp hw).resolve_right fun h => nomatch h.1
    { kind w hw := hone w hw ▸ hkind
      claim w hw := hone w hw ▸ hclaim
      index v hv w hw _ := by rw [hone v hv, hone w hw] }

theorem Store.mem_single {r w : TaskRow} {hkind : r.kind.isEmpty = false}
    {hclaim : r.claimedBy.isSome = r.claimedUntil.isSome} :
    w ∈ (Store.single r hkind hclaim).table.rows ↔ w = r := by
  constructor
  · exact fun h => (Table.mem_put.mp h).resolve_right fun h => nomatch h.1
  · exact fun h => Table.mem_put.mpr (.inl h)

/-! ## Serving a call -/

/-- From the rows `t` and the audit log `log`, a call is served undisturbed: it ends with `o` and
leaves the system `db`. -/
abbrev Served (t : Table TaskRow.id) (log : List (ℕ × AuditRow)) (n sid : ℕ) (call : Call)
    (b : Began) (o : Outcome) (db : System) : Prop :=
  Serves postgres Call.program ScansAll t log n sid call b o db

/-- Nothing waits where nobody holds a row. -/
theorem not_waits (q : Stmt) (b : Began) (e : Env) (rows : List TaskRow) :
    postgres.waits q b e rows allFree [] = false := by
  cases q with
  | insertTask => simp [postgres, waitsStmt, allFree]
  | update u =>
    simp only [postgres, waitsStmt]
    split <;> simp
  | _ => rfl

/-- An update that scans everything and can write every version it is to write. -/
theorem execUpdate_of_scan {t : Table TaskRow.id} {b : Began} (ht : Constrained t)
    {e : Env} (he : ScansAll t e) {u : Update}
    (hclaim : ∀ q w l r, u ≠ .claimNext q w l r) (hparams : u.checkParams b = .ok ())
    {f : TaskRow → TaskRow} (hset : ∀ r, u.set b e r = .ok (f r)) :
    execUpdate b e t.rows allFree u = .ok ((t.rows.filter fun r => u.selects b r).map f) := by
  have htargets : targets b e t.rows allFree u = t.rows.filter fun r => u.selects b r := by
    cases u with
    | claimNext => exact absurd rfl (hclaim _ _ _ _)
    | _ =>
      apply List.filter_congr
      intro r hr
      simp [he r hr]
  rw [execUpdate, hparams, htargets]
  have hmap : ∀ rs : List TaskRow, (∀ r ∈ rs, r ∈ t.rows ∧ u.selects b r = true) →
      rs.mapM (rewrite b e t.rows u) = .ok (rs.map f) := by
    intro rs hrs
    induction rs with
    | nil => rfl
    | cons r rs ih =>
      obtain ⟨hmem, hsel⟩ := hrs r List.mem_cons_self
      rw [List.mapM_cons, ht.rewrite_eq hmem hsel, hset,
        ih fun x hx => hrs x (List.mem_cons_of_mem _ hx)]
      rfl
  exact hmap _ fun r hr => List.mem_filter.mp hr

/-- An update that names its row by the primary key, and finds it. -/
theorem execUpdate_of_key {t : Table TaskRow.id} {b : Began} (ht : Constrained t) (e : Env)
    {u : Update} {r : TaskRow} (hmem : r ∈ t.rows) (hscans : u.scans = false)
    (hkey : ∀ w, u.selects b w = true → w.id = r.id) (hsel : u.selects b r = true) :
    execUpdate b e t.rows allFree u =
      (do u.checkParams b; u.set b e r).map fun r' => [r'] := by
  have htargets : targets b e t.rows allFree u = [r] := by
    have hrow : (u.selects b r && (!u.scans || e.seen r.id)) = true := by
      rw [hsel, hscans]
      rfl
    have hone : ∀ w ∈ t.rows, (u.selects b w && (!u.scans || e.seen w.id)) = true → w.id = r.id :=
      fun w _ hw => hkey w (Bool.and_eq_true_iff.mp hw).1
    cases u with
    | claimNext => cases hscans
    | _ => exact Table.filter_rows_eq_singleton hmem hrow hone
  rw [execUpdate, htargets, List.mapM_cons, List.mapM_nil, ht.rewrite_eq hmem hsel]
  cases u.checkParams b with
  | error err => rfl
  | ok _ => cases u.set b e r <;> rfl

section Executes

variable (a : Bool) (b : Began) (t : Table TaskRow.id)

/-- What a transaction does on the rows `t` by itself. -/
abbrev Tx.Executes {α : Type} (p : Tx α) (vs : List TaskRow) (ls : List AuditRow)
    (vs' : List TaskRow) (ls' : List AuditRow) (fin : Ending α SqlError) : Prop :=
  Program.Executes postgres b (ScansAll t) t p vs ls vs' ls' fin

variable {a b t} {α : Type} {vs vs' : List TaskRow} {ls ls' : List AuditRow}
  {fin : Ending α SqlError}

/-- **A call is served as its transaction executes.** -/
theorem served_iff {log : List (ℕ × AuditRow)} {n sid : ℕ} {call : Call} {o : Outcome}
    {db : System} :
    Served t log n sid call b o db ↔ ∃ vs ls fin, Tx.Executes b t call.program [] [] vs ls fin ∧
      o = fin.shows t n sid call b vs ls ∧ db = fin.leaves t log n vs ls :=
  serves_iff not_waits

theorem scansAll_all : ScansAll t .all := fun _ _ => rfl

/-- A call is always served. -/
theorem exists_served (t : Table TaskRow.id) (log : List (ℕ × AuditRow)) (n sid : ℕ) (call : Call)
    (b : Began) : ∃ o db, Served t log n sid call b o db := by
  obtain ⟨vs, ls, fin, h⟩ : ∃ vs ls fin, Tx.Executes b t call.program [] [] vs ls fin :=
    Program.Executes.exists_ending scansAll_all call.program [] []
  exact ⟨_, _, served_iff.mpr ⟨vs, ls, fin, h, rfl, rfl⟩⟩

/-- An update is refused, or writes the versions it returns. -/
theorem executes_update {u : Update} {k : List TaskRow → Tx α} :
    Tx.Executes b t (exec (.update u) >>= k) vs ls vs' ls' fin ↔ ∃ e, ScansAll t e ∧
      ((∃ err, execUpdate b e (t.putAll vs).rows allFree u = .error err ∧
          vs' = vs ∧ ls' = ls ∧ fin = .refused err) ∨
        ∃ rs, execUpdate b e (t.putAll vs).rows allFree u = .ok rs ∧
          Tx.Executes b t (k rs) (vs ++ rs) ls vs' ls' fin) := by
  constructor
  · intro h
    cases h with
    | @refuse _ _ e err _ _ he hx =>
      refine ⟨e, he, .inl ⟨err, ?_, rfl, rfl, rfl⟩⟩
      cases hrs : execUpdate b e (t.putAll vs).rows allFree u with
      | error err' => simpa [postgres, execStmt, hrs, bind, Except.bind] using hx
      | ok rs => simp [postgres, execStmt, hrs, bind, Except.bind, pure, Except.pure] at hx
    | @step _ _ e eff _ _ _ _ _ he hx hk =>
      obtain ⟨rs, hrs, hx⟩ := exists_of_bind_ok hx
      cases hx
      rw [List.append_nil] at hk
      exact ⟨e, he, .inr ⟨rs, hrs, hk⟩⟩
  · rintro ⟨e, he, ⟨err, hx, rfl, rfl, rfl⟩ | ⟨rs, hrs, hk⟩⟩
    · refine .refuse he ?_
      simp [postgres, execStmt, hx, bind, Except.bind]
    · have heff : postgres.exec (.update u) b e (t.putAll vs).rows allFree = .ok ⟨rs, [], rs⟩ := by
        simp [postgres, execStmt, hrs, bind, Except.bind, pure, Except.pure]
      refine .step he heff ?_
      rw [List.append_nil]
      exact hk

/-- A row is read by its key. -/
theorem executes_selectById {id : TaskId} {k : Option TaskRow → Tx α} :
    Tx.Executes b t (exec (.selectById id) >>= k) vs ls vs' ls' fin ↔
      Tx.Executes b t (k ((t.putAll vs).get id)) vs ls vs' ls' fin := by
  have hexec : ∀ e, postgres.exec (.selectById id) b e (t.putAll vs).rows allFree =
      .ok ⟨[], [], (t.putAll vs).get id⟩ := fun _ => rfl
  constructor
  · intro h
    cases h with
    | refuse _ hx => cases hx
    | step _ hx hk =>
      rw [hexec] at hx
      cases hx
      rw [List.append_nil, List.append_nil] at hk
      exact hk
  · intro h
    refine .step scansAll_all (hexec .all) ?_
    rw [List.append_nil, List.append_nil]
    exact h

/-- The audit write of a trace id does not panic. -/
def Loggable (a : Bool) (traceId : Option String) : Prop :=
  a = true → traceId.map capTraceId ≠ some none

instance (a : Bool) (traceId : Option String) : Decidable (Loggable a traceId) :=
  inferInstanceAs (Decidable (a = true → traceId.map capTraceId ≠ some none))

/-- A trace id of 255 characters; the last one takes two bytes, the 255th and the 256th. -/
def longTraceId : String := String.ofList (List.replicate 254 'a' ++ ['é'])

theorem capTraceId_longTraceId : capTraceId longTraceId = none := by
  have hsize : longTraceId.utf8ByteSize = 256 :=
    (utf8ByteSize_ofList _).trans (by decide +kernel)
  -- the front that fits ends before the two bytes of the last character
  have hfront : String.ofList (takeBytes 255 longTraceId.toList) =
      String.ofList (List.replicate 254 'a') :=
    congrArg String.ofList ((congrArg (takeBytes 255) String.toList_ofList).trans (by decide +kernel))
  have hshort : (String.ofList (List.replicate 254 'a')).utf8ByteSize ≠ 255 := by
    rw [utf8ByteSize_ofList, List.map_replicate, List.sum_replicate]
    decide
  unfold capTraceId sliceTo
  rw [hsize, if_pos (by decide), hfront]
  exact if_neg hshort

theorem not_loggable_longTraceId : ¬ Loggable true (some longTraceId) :=
  fun h => h rfl (congrArg some capTraceId_longTraceId)

/-- An audit write of a stored task appends its row, or panics. -/
theorem executes_insertAuditRow {x : AuditEntry} {k : PUnit → Tx α}
    (hx : ∃ r ∈ (t.putAll vs).rows, r.id = x.taskId) :
    Tx.Executes b t (insertAuditRow a x.taskId x.fromStatus x.toStatus x.workerId x.traceId
        x.metadata x.region >>= k) vs ls vs' ls' fin ↔
      (Loggable a x.traceId ∧ Tx.Executes b t (k ⟨⟩) vs (ls ++ logged a b [x]) vs' ls' fin) ∨
        ¬ Loggable a x.traceId ∧ vs' = vs ∧ ls' = ls ∧ fin = .unwound := by
  -- the insert of an audit row succeeds, since its task is stored
  have hone : ∀ traceId : Option String, traceId = x.traceId.bind capTraceId → a = true →
      (Tx.Executes b t (exec (.insertAudit x.taskId x.fromStatus x.toStatus x.workerId traceId
          (x.metadata.map capMetadata) x.region) >>= k) vs ls vs' ls' fin ↔
        Tx.Executes b t (k ⟨⟩) vs (ls ++ logged a b [x]) vs' ls' fin) := by
    rintro _ rfl rfl
    have hexec : ∀ e, postgres.exec (.insertAudit x.taskId x.fromStatus x.toStatus x.workerId
        (x.traceId.bind capTraceId) (x.metadata.map capMetadata) x.region) b e (t.putAll vs).rows
          allFree = .ok ⟨[], logged true b [x], ⟨⟩⟩ := fun e => if_pos (by simpa using hx)
    constructor
    · intro h
      cases h with
      | refuse _ hx => rw [hexec] at hx; cases hx
      | step _ hx hk =>
        rw [hexec] at hx
        cases hx
        rw [List.append_nil] at hk
        exact hk
    · intro h
      refine .step scansAll_all (hexec .all) ?_
      rw [List.append_nil]
      exact h
  unfold insertAuditRow Loggable
  by_cases ha : a = true
  · rw [if_pos ha]
    split
    next hcap =>
      constructor
      · intro h
        cases h
        exact .inr ⟨fun hl => hl ha hcap, rfl, rfl, rfl⟩
      · rintro (⟨hl, -⟩ | ⟨-, rfl, rfl, rfl⟩)
        · exact absurd hcap (hl ha)
        · exact .unwind
    next s hcap =>
      rw [hone _ _ ha]
      · simp [hcap]
      · obtain ⟨s', hs, hcap⟩ := Option.map_eq_some_iff.mp hcap
        rw [hs]
        exact hcap.symm
    next hcap =>
      rw [hone _ _ ha]
      · simp [hcap]
      · rw [Option.map_eq_none_iff.mp hcap]
        rfl
  · rw [if_neg ha]
    simp [ha, logged]

/-- A loop that writes one audit row for each of some stored tasks appends them all, or panics at
one of them. -/
theorem executes_forM_insertAuditRow {rows : List TaskRow} (x : TaskRow → AuditEntry)
    {k : PUnit → Tx α} (hx : ∀ row ∈ rows, ∃ r ∈ (t.putAll vs).rows, r.id = (x row).taskId)
    (h : Tx.Executes b t ((rows.forM fun row => insertAuditRow a (x row).taskId (x row).fromStatus
      (x row).toStatus (x row).workerId (x row).traceId (x row).metadata (x row).region) >>= k)
      vs ls vs' ls' fin) :
    (∀ row ∈ rows, Loggable a (x row).traceId) ∧
        Tx.Executes b t (k ⟨⟩) vs (ls ++ logged a b (rows.map x)) vs' ls' fin ∨
      (∃ row ∈ rows, ¬ Loggable a (x row).traceId) ∧ vs' = vs ∧ fin = .unwound := by
  induction rows generalizing ls with
  | nil =>
    rw [List.map_nil, logged_nil, List.append_nil]
    exact .inl ⟨List.forall_mem_nil _, h⟩
  | cons row rows ih =>
    change Tx.Executes b t ((insertAuditRow a (x row).taskId (x row).fromStatus (x row).toStatus
      (x row).workerId (x row).traceId (x row).metadata (x row).region >>= fun _ => _) >>= k)
      vs ls vs' ls' fin at h
    rw [Program.bind_assoc, executes_insertAuditRow (hx row List.mem_cons_self)] at h
    rcases h with ⟨hrow, h⟩ | ⟨hrow, rfl, -, rfl⟩
    · rcases ih (fun r hr => hx r (List.mem_cons_of_mem _ hr)) h with ⟨hall, h⟩ | ⟨⟨r, hr, hbad⟩, hend⟩
      · rw [List.append_assoc, ← logged_append] at h
        exact .inl ⟨List.forall_mem_cons.mpr ⟨hrow, hall⟩, h⟩
      · exact .inr ⟨⟨r, List.mem_cons_of_mem _ hr, hbad⟩, hend⟩
    · exact .inr ⟨⟨row, List.mem_cons_self, hrow⟩, rfl, rfl⟩

end Executes

end IronDefer
