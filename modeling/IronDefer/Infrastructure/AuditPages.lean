import IronDefer.Infrastructure.Audit
import Mathlib.Data.List.Chain
import Mathlib.Data.List.Sort

/-!
# Reading the audit log

`auditLog` sorts the audit rows of a task by their timestamps, and by their ids where these agree.
A timestamp is the instant at which the transaction has begun, while transitions follow one another
in the order of their commits. The pages therefore tell the transitions in their order exactly where
the transactions that made them have begun in that order.

## Main definitions

* `AuditLogEntry`, `auditLog`: what is returned for a task, page by page
* `transitions`: the committed entries of a task that change its status
* `ReadsInOrder`: every page is a part of the transitions, in their order

## Main results

* `audit_pages_iff`: **the log reads in the order of the transitions where their transactions have
  begun in that order**
* `cancelled_before_suspended`: a log that reads in another order
-/

namespace IronDefer

open RowStore

/-! ## The query -/

/-- An entry of the audit log, as it is returned. -/
structure AuditLogEntry where
  id : ℕ
  taskId : TaskId
  fromStatus : Option TaskStatus
  toStatus : TaskStatus
  timestamp : Timestamp
  workerId : Option WorkerId
  traceId : Option String
  metadata : Option Json
  deriving DecidableEq

/-- A page of the audit log, and the number of entries there are. -/
structure ListAuditLogResult where
  entries : List AuditLogEntry
  total : ℕ
  deriving DecidableEq

/-- Decode a status column of the audit log. -/
def parseAuditStatus (column : String) (s : String) : Except RepoError TaskStatus :=
  (parseStatus s).mapError fun _ => mappingError (.auditStatus column (asciiLowercase s))

/-- Decode a row of the audit log. -/
def AuditLogEntry.tryFrom (x : ℕ × AuditRow) : Except RepoError AuditLogEntry := do
  let fromStatus ← x.2.fromStatus.mapM (parseAuditStatus "from_status")
  let toStatus ← parseAuditStatus "to_status" x.2.toStatus
  return {
    id := x.1
    taskId := x.2.taskId
    fromStatus
    toStatus
    timestamp := x.2.timestamp
    workerId := x.2.workerId
    traceId := x.2.traceId
    metadata := x.2.metadata }

/-- `ORDER BY timestamp ASC, id ASC`. -/
def ReadsBefore (x y : ℕ × AuditRow) : Prop :=
  x.2.timestamp < y.2.timestamp ∨ x.2.timestamp = y.2.timestamp ∧ x.1 ≤ y.1

instance : DecidableRel ReadsBefore := fun _ _ => inferInstanceAs (Decidable (_ ∨ _))

/-- The failure of a query the database refuses. -/
def queryRefused (message : String) : RepoError :=
  .storage (.message ("database query failed: error returned from database: " ++ message))

/-- A page of the audit log of a task, read from the committed rows by a repository with the given
audit flag. -/
def auditLog (enabled : Bool) (db : System) (taskId : TaskId) (limit offset : Int) :
    Except RepoError ListAuditLogResult :=
  if !enabled then .ok ⟨[], 0⟩
  else if offset < 0 then .error (queryRefused "OFFSET must not be negative")
  else if limit < 0 then .error (queryRefused "LIMIT must not be negative")
  else do
    let rows := (auditRows db taskId).insertionSort ReadsBefore
    let page := (rows.drop offset.toNat).take limit.toNat
    let entries ← page.mapM AuditLogEntry.tryFrom
    -- the total is a column of the rows, and an empty page has none
    return ⟨entries, if page.isEmpty then 0 else rows.length⟩

/-! ## Transitions -/

/-- The entry changes the status of its task. -/
def Entry.Moves (x : Entry) : Prop := x.change.old.map TaskRow.status ≠ some x.change.new.status

instance (x : Entry) : Decidable x.Moves := inferInstanceAs (Decidable (_ ≠ _))

/-- The committed transitions of a task, in the order of their commits. -/
def transitions (id : TaskId) (os : List Outcome) : List Entry :=
  (history id os).filter fun x => decide x.Moves

/-- What a transition is: the task, the statuses, and when its transaction has begun. -/
def Entry.told (x : Entry) : TaskId × Change TaskStatus × Timestamp :=
  (x.change.new.id, x.change.map TaskRow.status, x.began.now)

/-- What a returned entry tells of a transition. -/
def AuditLogEntry.told (e : AuditLogEntry) : TaskId × Change TaskStatus × Timestamp :=
  (e.taskId, ⟨e.fromStatus, e.toStatus⟩, e.timestamp)

/-- Every page of the audit log of a task is the part of its transitions that has been asked for, in
their order; each entry of it starts where the one before it has ended. -/
def ReadsInOrder (id : TaskId) (os : List Outcome) (db : System) : Prop :=
  ∀ limit offset : ℕ, ∃ page, auditLog true db id limit offset = .ok page ∧
    page.entries.map AuditLogEntry.told =
      (((transitions id os).drop offset).take limit).map Entry.told ∧
    page.entries.IsChain fun e e' => e'.fromStatus = some e.toStatus

theorem transitions_append (id : TaskId) (os ps : List Outcome) :
    transitions id (os ++ ps) = transitions id os ++ transitions id ps := by
  rw [transitions, history_append, List.filter_append]
  rfl

theorem map_change_transitions (id : TaskId) (os : List Outcome) :
    (transitions id os).map (fun x => x.change.map TaskRow.status) =
      movesOf TaskRow.status (changesAt TaskRow.id id os) := by
  rw [← map_change_history, movesOf, List.map_map, List.filter_map, transitions]
  rfl

theorem map_statusText (c : Change TaskRow) :
    (c.map TaskRow.status).map TaskStatus.asStr = c.map TaskRow.statusText := by
  rw [Change.map, Change.map, Change.map, Option.map_map]
  rfl

/-- The texts of the statuses show the changes the statuses show. -/
theorem movesOf_statusText (cs : List (Change TaskRow)) :
    movesOf TaskRow.statusText cs =
      (movesOf TaskRow.status cs).map (Change.map TaskStatus.asStr) := by
  have hmoves : ∀ c : Change TaskRow, (c.map TaskRow.statusText).old =
      some (c.map TaskRow.statusText).new ↔
        (c.map TaskRow.status).old = some (c.map TaskRow.status).new := by
    intro c
    rw [← map_statusText]
    exact (Option.map_injective TaskStatus.asStr_injective).eq_iff' rfl
  have hfun : Change.map TaskStatus.asStr ∘ Change.map TaskRow.status =
      Change.map TaskRow.statusText := funext map_statusText
  rw [movesOf, movesOf, List.filter_map, List.filter_map, List.map_map, hfun]
  congr 1
  exact List.filter_congr fun c _ => by simp [hmoves c]

theorem isChain_of_linked {V : Type} {o o' : Option V} {cs : List (Change V)}
    (h : Linked o cs o') : cs.IsChain fun c c' => c'.old = some c.new := by
  induction cs generalizing o with
  | nil => exact .nil
  | cons c cs ih =>
    obtain ⟨-, hrest⟩ := h
    cases cs with
    | nil => exact .singleton _
    | cons d cs => exact .cons_cons hrest.1 (ih hrest)

/-! ## The rows -/

/-- The audit rows of a commit bear the time its transaction has begun at. -/
theorem Op.Spec.timestamp {rely : Table TaskRow.id → (TaskId → Bool) → Env → Prop} {a : Bool}
    {b : Began} {op : Op} {cs : List (Change TaskRow)} {ls : List AuditRow} {r : Reply}
    (h : Op.Spec rely a b op cs ls (.commit r)) : ∀ l ∈ ls, l.timestamp = b.now := by
  have hlogged : ∀ xs : List AuditEntry, ∀ l ∈ logged a b xs, l.timestamp = b.now := by
    intro xs l hl
    unfold logged at hl
    split at hl
    · obtain ⟨x, -, rfl⟩ := List.mem_map.mp hl
      rfl
    · cases hl
  cases h with
  | cleanup | notFound | found | unclaimed | notCancellable | cancelNotFound | notWritten | written =>
    intro l hl
    cases hl
  | _ => exact hlogged _

section Runs

variable {os : List Outcome} {db : System}

/-- The audit rows tell the transitions. -/
def Tells (x : ℕ × AuditRow) (y : Entry) : Prop :=
  x.2.taskId = y.change.new.id ∧ x.2.move = y.change.map TaskRow.statusText ∧
    x.2.timestamp = y.began.now

theorem forall₂_of_map_eq {α β γ : Type} {f : α → γ} {g : β → γ} {l : List α} {l' : List β}
    (h : l.map f = l'.map g) : List.Forall₂ (fun a b => f a = g b) l l' := by
  rw [← List.forall₂_eq_eq_eq, List.forall₂_map_left_iff, List.forall₂_map_right_iff] at h
  exact h

/-- The audit rows a step publishes about a task tell the transitions it commits. -/
theorem tells_step {o : Outcome} {id : TaskId} (hrec : Recorded o.changes (o.logs.map Prod.snd))
    (htime : ∀ b, o.began = some b → ∀ l ∈ o.logs, l.2.timestamp = b.now) :
    List.Forall₂ Tells (o.logs.filter fun x => decide (x.2.taskId = id)) (transitions id [o]) := by
  cases o with
  | committed sid call b cs ls r =>
    -- the rows record the moves, and all have the timestamp of the transaction
    have hmoves : ((ls.filter fun x => decide (x.2.taskId = id)).map fun x => x.2.move) =
        (transitions id [.committed sid call b cs ls r]).map
          fun y => y.change.map TaskRow.statusText := by
      have hleft := hrec id
      rw [List.filter_map, List.map_map] at hleft
      have hright : changesAt TaskRow.id id [(.committed sid call b cs ls r : Outcome)] =
          cs.filter fun c => decide (c.new.id = id) := by simp [changesAt]
      have htold := map_change_transitions id [.committed sid call b cs ls r]
      rw [hright] at htold
      apply hleft.trans
      rw [Output.changes_committed, movesOf_statusText, ← htold, List.map_map]
      exact List.map_congr_left fun y _ => map_statusText _
    have hrows : ∀ x ∈ ls.filter fun x => decide (x.2.taskId = id),
        (x.2.taskId, x.2.move, x.2.timestamp) = (id, x.2.move, b.now) := by
      intro x hx
      obtain ⟨hx, hid⟩ := List.mem_filter.mp hx
      rw [of_decide_eq_true hid, htime b rfl x hx]
    have htrans : ∀ y ∈ transitions id [.committed sid call b cs ls r],
        (y.change.new.id, y.change.map TaskRow.statusText, y.began.now) =
          (id, y.change.map TaskRow.statusText, b.now) := by
      intro y hy
      obtain ⟨hyo, hid⟩ := mem_history_singleton.mp (List.mem_of_mem_filter hy)
      obtain ⟨c, -, rfl⟩ := List.mem_map.mp hyo
      rw [hid]
    -- so task, move and timestamp agree one by one
    have heq := congrArg (List.map fun m => (id, m, b.now)) hmoves
    rw [List.map_map, List.map_map] at heq
    have hall := (List.map_congr_left hrows).trans (heq.trans (List.map_congr_left htrans).symm)
    apply (forall₂_of_map_eq hall).imp
    intro x y hxy
    obtain ⟨hid, hrest⟩ := Prod.mk.inj hxy
    exact ⟨hid, Prod.mk.inj hrest⟩
  | _ => exact .nil

/-- **The audit rows of a task tell its transitions**, one by one. -/
theorem Runs.tells (h : Runs (Calls Call.Audited) .empty os db) (id : TaskId) :
    List.Forall₂ Tells (auditRows db id) (transitions id os) := by
  have hlog : db.log = os.flatMap Output.logs := Reaches.log_eq h
  have hall := h.recorded
  have hspec := h.spec_idle
  rw [auditRows, hlog]
  clear h hlog
  induction os with
  | nil => exact .nil
  | cons o os ih =>
    have ih := ih (fun p hp => hall p (List.mem_cons_of_mem _ hp))
      fun p hp => hspec p (List.mem_cons_of_mem _ hp)
    have hstep : List.Forall₂ Tells (o.logs.filter fun x => decide (x.2.taskId = id))
        (transitions id [o]) := by
      apply tells_step (hall o List.mem_cons_self)
      intro b hb l hl
      have ho := hspec o List.mem_cons_self
      cases o with
      | committed sid call b' cs ls r =>
        cases hb
        exact (ho trivial).timestamp l.2 (List.mem_map_of_mem hl)
      | _ => cases hl
    rw [List.flatMap_cons, List.filter_append, ← List.singleton_append, transitions_append]
    exact List.rel_append hstep ih

end Runs

/-! ## The pages -/

theorem parseAuditStatus_asStr (column : String) (status : TaskStatus) :
    parseAuditStatus column status.asStr = .ok status := by
  have hparse := parseStatus_statusToStr status
  rw [statusToStr] at hparse
  rw [parseAuditStatus, hparse]
  rfl

/-- A row that tells a transition can be decoded, and its entry tells it. -/
theorem Tells.tryFrom {x : ℕ × AuditRow} {y : Entry} (h : Tells x y) :
    ∃ e, AuditLogEntry.tryFrom x = .ok e ∧ e.told = y.told := by
  obtain ⟨hid, hmove, htime⟩ := h
  have hfrom : x.2.fromStatus = (y.change.map TaskRow.status).old.map TaskStatus.asStr :=
    (congrArg Change.old hmove).trans (congrArg Change.old (map_statusText y.change)).symm
  have hto : x.2.toStatus = (y.change.map TaskRow.status).new.asStr := congrArg Change.new hmove
  refine ⟨⟨x.1, x.2.taskId, (y.change.map TaskRow.status).old, (y.change.map TaskRow.status).new,
    x.2.timestamp, x.2.workerId, x.2.traceId, x.2.metadata⟩, ?_, ?_⟩
  · rw [AuditLogEntry.tryFrom, hfrom, hto, parseAuditStatus_asStr]
    cases (y.change.map TaskRow.status).old with
    | none => rfl
    | some status =>
      simp only [Option.map_some, Option.mapM_some, parseAuditStatus_asStr]
      rfl
  · rw [AuditLogEntry.told, Entry.told, hid, htime]

theorem exists_mapM_tryFrom {rows : List (ℕ × AuditRow)} {ts : List Entry}
    (h : List.Forall₂ Tells rows ts) :
    ∃ es, rows.mapM AuditLogEntry.tryFrom = .ok es ∧
      es.map AuditLogEntry.told = ts.map Entry.told := by
  induction h with
  | nil => exact ⟨[], rfl, rfl⟩
  | cons hxy _ ih =>
    obtain ⟨e, he, htold⟩ := hxy.tryFrom
    obtain ⟨es, hes, htolds⟩ := ih
    refine ⟨e :: es, ?_, ?_⟩
    · rw [List.mapM_cons, he, hes]
      rfl
    · rw [List.map_cons, List.map_cons, htold, htolds]

/-- Decoding keeps the timestamps. -/
theorem timestamps_of_mapM {rows : List (ℕ × AuditRow)} {es : List AuditLogEntry}
    (h : rows.mapM AuditLogEntry.tryFrom = .ok es) :
    es.map AuditLogEntry.timestamp = rows.map fun x => x.2.timestamp := by
  induction rows generalizing es with
  | nil =>
    cases h
    rfl
  | cons x rows ih =>
    rw [List.mapM_cons] at h
    obtain ⟨e, he, h⟩ := exists_of_bind_ok h
    obtain ⟨es', hes, h⟩ := exists_of_bind_ok h
    cases h
    rw [List.map_cons, List.map_cons, ih hes]
    obtain ⟨_, -, he⟩ := exists_of_bind_ok he
    obtain ⟨_, -, he⟩ := exists_of_bind_ok he
    cases he
    rfl

/-- The rows of a page. -/
def pageRows (db : System) (id : TaskId) (limit offset : ℕ) : List (ℕ × AuditRow) :=
  (((auditRows db id).insertionSort ReadsBefore).drop offset).take limit

theorem auditLog_eq (db : System) (id : TaskId) (limit offset : ℕ) :
    auditLog true db id limit offset =
      ((pageRows db id limit offset).mapM AuditLogEntry.tryFrom).map fun entries =>
        ⟨entries, if (pageRows db id limit offset).isEmpty then 0
          else ((auditRows db id).insertionSort ReadsBefore).length⟩ := by
  have hl : ¬ (limit : ℤ) < 0 := by omega
  have ho : ¬ (offset : ℤ) < 0 := by omega
  rw [auditLog, if_neg (by simp), if_neg ho, if_neg hl, Int.toNat_natCast, Int.toNat_natCast]
  rfl

instance : Std.Total ReadsBefore := ⟨fun x y => by
  rcases Int.lt_trichotomy x.2.timestamp y.2.timestamp with hlt | heq | hlt
  · exact .inl (.inl hlt)
  · rcases Nat.le_total x.1 y.1 with hle | hle
    · exact .inl (.inr ⟨heq, hle⟩)
    · exact .inr (.inr ⟨heq.symm, hle⟩)
  · exact .inr (.inl hlt)⟩

instance : IsTrans (ℕ × AuditRow) ReadsBefore := ⟨fun x y z hxy hyz => by
  rcases hxy with hxy | ⟨hxy, hid⟩
  · rcases hyz with hyz | ⟨hyz, -⟩
    · exact .inl (Int.lt_trans hxy hyz)
    · exact .inl (hyz ▸ hxy)
  · rcases hyz with hyz | ⟨hyz, hid'⟩
    · exact .inl (hxy ▸ hyz)
    · exact .inr ⟨hxy.trans hyz, Nat.le_trans hid hid'⟩⟩

section Runs

variable {os : List Outcome} {db : System} {id : TaskId}

/-- Where the transactions have begun in the order of their commits, the rows are already in the
order they are read in. -/
theorem Runs.sorted_auditRows (h : Runs (Calls Call.Audited) .empty os db)
    (hbegan : (transitions id os).Pairwise fun x y => x.began.now ≤ y.began.now) :
    (auditRows db id).insertionSort ReadsBefore = auditRows db id := by
  apply List.Pairwise.insertionSort_eq
  have htimes : (auditRows db id).map (fun x => x.2.timestamp) =
      (transitions id os).map fun y => y.began.now := by
    have htells := (h.tells id).imp fun x y hxy => hxy.2.2
    rw [← List.forall₂_eq_eq_eq, List.forall₂_map_left_iff, List.forall₂_map_right_iff]
    exact htells
  have hle : (auditRows db id).Pairwise fun x y => x.2.timestamp ≤ y.2.timestamp := by
    rw [← List.pairwise_map (f := fun x : ℕ × AuditRow => x.2.timestamp) (R := (· ≤ ·)), htimes,
      List.pairwise_map]
    exact hbegan
  apply (hle.and (h.auditRows_sorted id)).imp
  rintro x y ⟨htime, hlt⟩
  rcases Int.lt_or_eq_of_le htime with hlt' | heq
  · exact .inl hlt'
  · exact .inr ⟨heq, Nat.le_of_lt hlt⟩

/-- Consecutive transitions of a task start where the one before has ended. -/
theorem Runs.transitions_chain {ok : List Outcome → System → Move → Prop}
    (h : Runs ok .empty os db) (id : TaskId) : ((transitions id os).map Entry.told).IsChain
      fun t t' => t'.2.1.old = some t.2.1.new := by
  have hlinked := isChain_of_linked ((Reaches.linked h id).movesOf TaskRow.status)
  rw [← map_change_transitions, List.isChain_map] at hlinked
  rw [List.isChain_map]
  exact hlinked

end Runs

/-- **The audit log reads in the order of the transitions where their transactions have begun in
that order.** In every run from the empty store with the audit log enabled and the scheduler's
submissions, at every moment and for every task: all pages, at any limit and offset, tell their part
of the transitions of the task in the order of their commits, each from where the one before has
ended, if and only if the transactions of these transitions have begun in the order in which they
have committed. -/
theorem audit_pages_iff {os : List Outcome} {db : System}
    (h : Runs (Calls Call.Audited) .empty os db) (id : TaskId) :
    ReadsInOrder id os db ↔
      (transitions id os).Pairwise fun x y => x.began.now ≤ y.began.now := by
  constructor
  · intro hreads
    obtain ⟨page, hpage, htold, -⟩ := hreads (transitions id os).length 0
    rw [auditLog_eq] at hpage
    obtain ⟨es, hes, rfl⟩ := eq_of_map_eq_ok hpage
    -- the rows are read by their timestamps, and these are the ones the page tells
    have hsorted : (pageRows db id (transitions id os).length 0).Pairwise
        fun x y => x.2.timestamp ≤ y.2.timestamp := by
      have hall := List.pairwise_insertionSort ReadsBefore (auditRows db id)
      apply ((hall.sublist (List.drop_sublist _ _)).sublist (List.take_sublist _ _)).imp
      rintro x y (hlt | ⟨heq, -⟩)
      · exact Int.le_of_lt hlt
      · exact Int.le_of_eq heq
    have htimes := timestamps_of_mapM hes
    rw [List.drop_zero, List.take_length] at htold
    have hnow := congrArg (List.map fun t : TaskId × Change TaskStatus × Timestamp => t.2.2) htold
    rw [List.map_map, List.map_map] at hnow
    have heq : (transitions id os).map (fun y => y.began.now) =
        (pageRows db id (transitions id os).length 0).map fun x => x.2.timestamp :=
      hnow.symm.trans htimes
    rw [← List.pairwise_map (f := fun y : Entry => y.began.now) (R := (· ≤ ·)), heq,
      List.pairwise_map]
    exact hsorted
  · intro hbegan limit offset
    have hrows : List.Forall₂ Tells (pageRows db id limit offset)
        (((transitions id os).drop offset).take limit) := by
      rw [pageRows, h.sorted_auditRows hbegan]
      exact List.forall₂_take _ (List.forall₂_drop _ (h.tells id))
    obtain ⟨es, hes, htold⟩ := exists_mapM_tryFrom hrows
    refine ⟨_, by rw [auditLog_eq, hes]; rfl, htold, ?_⟩
    have hchain := ((Runs.transitions_chain h id).drop offset).take limit
    rw [← List.map_drop, ← List.map_take, ← htold, List.isChain_map] at hchain
    exact hchain

theorem runs_audited {evs : List Move}
    (hok : Admitted System.step
      (Calls fun c => c.auditLog = true ∧ c.SavesOnly [sampleTask .default]) [] .empty evs)
    (hrun : (run System.step .empty evs).isSome) :
    Runs (Calls Call.Audited) .empty (System.shown evs) (System.after evs) := by
  refine (Runs.of_moves evs hok hrun).calls_mono fun c hc => ⟨hc.1, fun task ht => ?_⟩
  obtain rfl := List.mem_singleton.mp (hc.2 task ht)
  exact enqueued_sampleTask _

/-- In the sample of the audit log, the pages tell the transitions in their order. -/
theorem audited_pages :
    ReadsInOrder ⟨1⟩ (System.shown auditedMoves) (System.after auditedMoves) :=
  (audit_pages_iff (runs_audited (by decide +kernel) (by decide +kernel)) ⟨1⟩).mpr
    (by decide +kernel)

/-- A cancellation that begins before a suspension, and gets to the row after it. -/
def overtakenMoves : List Move :=
  serve 1 ⟨true, .save (sampleTask .default), none⟩ 0 [.all, .all] ++
  serve 2 ⟨true, .claimNext sampleQueue sampleWorker 1000000000 none, none⟩ 10 [.all, .all] ++
  [.start 4 ⟨true, .cancel ⟨1⟩, none⟩ ⟨15⟩] ++
  serve 3 ⟨true, .suspend ⟨1⟩, none⟩ 20 [.all, .all] ++
  [.exec 4 .all, .exec 4 .all, .exec 4 .all, .finish 4]

/-- **The log tells the cancellation before the suspension it has followed.** -/
theorem cancelled_before_suspended :
    Runs (Calls Call.Audited) .empty (System.shown overtakenMoves) (System.after overtakenMoves) ∧
    (transitions ⟨1⟩ (System.shown overtakenMoves)).map (fun x => x.change.map TaskRow.status) =
      [⟨none, .pending⟩, ⟨some .pending, .running⟩, ⟨some .running, .suspended⟩,
        ⟨some .suspended, .cancelled⟩] ∧
    (auditLog true (System.after overtakenMoves) ⟨1⟩ 100 0).toOption.map
        (fun page => page.entries.map fun e => (e.told.2.1, e.timestamp)) =
      some [(⟨none, .pending⟩, 0), (⟨some .pending, .running⟩, 10),
        (⟨some .suspended, .cancelled⟩, 15), (⟨some .running, .suspended⟩, 20)] ∧
    ¬ ReadsInOrder ⟨1⟩ (System.shown overtakenMoves) (System.after overtakenMoves) := by
  have h : Runs (Calls Call.Audited) .empty (System.shown overtakenMoves)
      (System.after overtakenMoves) := runs_audited (by decide +kernel) (by decide +kernel)
  have hpage : (auditLog true (System.after overtakenMoves) ⟨1⟩ 100 0).toOption.map
        (fun page => page.entries.map fun e => (e.told.2.1, e.timestamp)) =
      some [(⟨none, .pending⟩, 0), (⟨some .pending, .running⟩, 10),
        (⟨some .suspended, .cancelled⟩, 15), (⟨some .running, .suspended⟩, 20)] := by
    decide +kernel
  refine ⟨h, by decide +kernel, hpage, fun hreads => ?_⟩
  obtain ⟨page, hread, -, hchain⟩ := hreads 100 0
  have hread : auditLog true (System.after overtakenMoves) ⟨1⟩ 100 0 = .ok page := hread
  rw [hread] at hpage
  have htold : (page.entries.map fun e => e.told.2.1) = [⟨none, .pending⟩,
      ⟨some .pending, .running⟩, ⟨some .suspended, .cancelled⟩, ⟨some .running, .suspended⟩] := by
    have hfst := congrArg (List.map Prod.fst) (Option.some.inj hpage)
    rwa [List.map_map] at hfst
  -- the third entry does not start where the second one ends
  have hall : (page.entries.map fun e => e.told.2.1).IsChain fun c c' => c'.old = some c.new :=
    (List.isChain_map _).mpr hchain
  rw [htold] at hall
  simp at hall

end IronDefer
