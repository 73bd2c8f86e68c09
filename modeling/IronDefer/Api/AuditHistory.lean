import IronDefer.Infrastructure.AuditPages
import IronDefer.Infrastructure.AuditEntries
import IronDefer.Api.Cancellation
import IronDefer.RowStore.Paging

/-!
# Reading the audit log through the API

The total of a page of the audit log is a column of its first row, so that a page past the end of
the log has the total zero. The listing of the tasks counts the rows once more in this case, and the
audit log does not. A client that reads the log from its beginning, and stops at the total, never
asks for such a page, and gets every entry once.

## Main definitions

* `AuditLogResponse`, `AuditLogListResponse`, `getAuditLog`: the endpoint
* `ReturnsAuditPage`: a page of the log is returned, with the number of its rows
* `ReadsAuditLog`: what a client gets that reads the log page by page

## Main results

* `audit_paging_iff`: **when the page is returned with its total, and when the client gets the log**
* `past_the_end`: a page past the end, with the total zero
-/

namespace IronDefer

open RowStore

/-! ## The endpoint -/

/-- An entry of the audit log, as it is responded. -/
structure AuditLogResponse where
  id : ℕ
  taskId : TaskId
  fromStatus : Option String
  toStatus : String
  timestamp : Timestamp
  workerId : Option WorkerId
  traceId : Option String
  metadata : Option Json
  deriving DecidableEq

def AuditLogResponse.ofEntry (e : AuditLogEntry) : AuditLogResponse where
  id := e.id
  taskId := e.taskId
  fromStatus := e.fromStatus.map TaskStatus.asStr
  toStatus := e.toStatus.asStr
  timestamp := e.timestamp
  workerId := e.workerId
  traceId := e.traceId
  metadata := e.metadata

structure AuditLogListResponse where
  entries : List AuditLogResponse
  total : ℕ
  limit : Int
  offset : Int
  deriving DecidableEq

/-- The task of the id, read from the committed rows. -/
def findTask (t : Table TaskRow.id) (id : TaskId) : Except RepoError (Option TaskRecord) :=
  match t.get id with
  | none => .ok none
  | some row => (TaskRecord.tryFrom row).map some

def defaultAuditLimit : Int := 100

/-- `GET /tasks/{id}/audit`, over the texts of the errors of the repository. -/
def getAuditLog (display : RepoError → String) (enabled : Bool) (db : System) (id : TaskId)
    (limit offset : Option Int) : Except AppError AuditLogListResponse := do
  let limit := max 1 (min (limit.getD defaultAuditLimit) 1000)
  let offset := max (offset.getD 0) 0
  match ← (findTask db.table id).mapError (.ofTaskError display) with
  | none => throw (.ofTaskError display (.notFound id))
  | some _ =>
    let result ← (auditLog enabled db id limit offset).mapError (.ofTaskError display)
    return ⟨result.entries.map .ofEntry, result.total, limit, offset⟩

/-! ## A page and its total -/

/-- The statuses of the row are statuses the program knows. -/
def AuditRow.Decodes (a : AuditRow) : Prop :=
  ∀ s ∈ a.fromStatus.toList ++ [a.toStatus], (parseStatus s).isOk = true

instance : DecidablePred AuditRow.Decodes := fun a =>
  inferInstanceAs (Decidable (∀ s ∈ a.fromStatus.toList ++ [a.toStatus], (parseStatus s).isOk = true))

/-- The page that has been asked for is returned, with the number of the audit rows of the task. -/
def ReturnsAuditPage (enabled : Bool) (db : System) (id : TaskId) (limit offset : ℕ) : Prop :=
  ∃ entries, (pageRows db id limit offset).mapM AuditLogEntry.tryFrom = .ok entries ∧
    auditLog enabled db id limit offset = .ok ⟨entries, (auditRows db id).length⟩

theorem isOk_iff {ε α : Type} {x : Except ε α} : x.isOk = true ↔ ∃ a, x = .ok a := by
  cases x with
  | error e => exact iff_of_false Bool.false_ne_true fun ⟨_, h⟩ => by cases h
  | ok a => exact iff_of_true rfl ⟨a, rfl⟩

theorem parseAuditStatus_iff {column s : String} :
    (∃ status, parseAuditStatus column s = .ok status) ↔ (parseStatus s).isOk = true := by
  unfold parseAuditStatus
  rw [← isOk_iff]
  cases parseStatus s with
  | error e => exact Iff.rfl
  | ok status => exact Iff.rfl

theorem exists_bind_ok_iff {ε α β : Type} {x : Except ε α} {f : α → Except ε β} :
    (∃ c, x >>= f = .ok c) ↔ ∃ a, x = .ok a ∧ ∃ c, f a = .ok c := by
  constructor
  · rintro ⟨c, h⟩
    obtain ⟨a, ha, h⟩ := exists_of_bind_ok h
    exact ⟨a, ha, c, h⟩
  · rintro ⟨a, rfl, c, h⟩
    exact ⟨c, h⟩

theorem parseAuditStatus_opt_iff {column : String} {o : Option String} :
    (∃ status, o.mapM (parseAuditStatus column) = .ok status) ↔
      ∀ s ∈ o.toList, (parseStatus s).isOk = true := by
  cases o with
  | none => exact iff_of_true ⟨none, rfl⟩ (List.forall_mem_nil _)
  | some s =>
    have hmap : Option.mapM (parseAuditStatus column) (some s) =
        parseAuditStatus column s >>= fun status => pure (some status) := by
      rw [Option.mapM_some]
      rfl
    rw [hmap, exists_bind_ok_iff, Option.toList_some, List.forall_mem_singleton,
      ← parseAuditStatus_iff]
    exact exists_congr fun status => and_iff_left ⟨some status, rfl⟩

/-- A row can be returned where its statuses are known. -/
theorem decodes_iff {x : ℕ × AuditRow} :
    (∃ e, AuditLogEntry.tryFrom x = .ok e) ↔ x.2.Decodes := by
  unfold AuditLogEntry.tryFrom AuditRow.Decodes
  rw [List.forall_mem_append, ← parseAuditStatus_opt_iff, List.forall_mem_singleton,
    ← parseAuditStatus_iff, exists_bind_ok_iff]
  constructor
  · rintro ⟨fromStatus, hfrom, h⟩
    obtain ⟨toStatus, hto, -⟩ := exists_bind_ok_iff.mp h
    exact ⟨⟨fromStatus, hfrom⟩, toStatus, hto⟩
  · rintro ⟨⟨fromStatus, hfrom⟩, toStatus, hto⟩
    exact ⟨fromStatus, hfrom, exists_bind_ok_iff.mpr ⟨toStatus, hto, _, rfl⟩⟩

theorem mapM_tryFrom_iff {rows : List (ℕ × AuditRow)} :
    (∃ es, rows.mapM AuditLogEntry.tryFrom = .ok es) ↔ ∀ x ∈ rows, x.2.Decodes :=
  exists_mapM_ok_iff.trans (forall₂_congr fun _ _ => decodes_iff)

theorem length_sorted (db : System) (id : TaskId) :
    ((auditRows db id).insertionSort ReadsBefore).length = (auditRows db id).length :=
  List.length_insertionSort ReadsBefore _

/-- A page has rows where it starts before the end of the log. -/
theorem pageRows_eq_nil_iff {db : System} {id : TaskId} {limit offset : ℕ} (hlimit : 1 ≤ limit) :
    pageRows db id limit offset = [] ↔ (auditRows db id).length ≤ offset := by
  rw [pageRows, ← List.length_eq_zero_iff, List.length_take, List.length_drop, length_sorted]
  omega

/-- **The page is returned with its total exactly where the task has no audit rows, or the log is
enabled, the page starts before the end and its rows can be decoded.** -/
theorem returnsAuditPage_iff {enabled : Bool} {db : System} {id : TaskId} {limit offset : ℕ}
    (hlimit : 1 ≤ limit) :
    ReturnsAuditPage enabled db id limit offset ↔ auditRows db id = [] ∨
      enabled = true ∧ offset < (auditRows db id).length ∧
        ∀ x ∈ pageRows db id limit offset, x.2.Decodes := by
  constructor
  · rintro ⟨entries, hpage, hlog⟩
    by_cases hrows : auditRows db id = []
    · exact .inl hrows
    have hlength : 0 < (auditRows db id).length := List.length_pos_of_ne_nil hrows
    cases enabled with
    | false =>
      have htotal := congrArg ListAuditLogResult.total (Except.ok.inj hlog)
      exact absurd htotal (Nat.ne_of_lt hlength)
    | true =>
      rw [auditLog_eq, hpage] at hlog
      have htotal := congrArg ListAuditLogResult.total (Except.ok.inj hlog)
      -- the total of an empty page is zero
      have hne : pageRows db id limit offset ≠ [] := by
        intro hnil
        rw [hnil] at htotal
        exact absurd htotal (Nat.ne_of_lt hlength)
      refine .inr ⟨rfl, ?_, mapM_tryFrom_iff.mp ⟨entries, hpage⟩⟩
      by_contra hge
      exact hne ((pageRows_eq_nil_iff hlimit).mpr (Nat.not_lt.mp hge))
  · rintro (hrows | ⟨rfl, hoffset, hdecode⟩)
    · have hnil : pageRows db id limit offset = [] :=
        (pageRows_eq_nil_iff hlimit).mpr (by rw [hrows]; exact Nat.zero_le _)
      refine ⟨[], by rw [hnil]; rfl, ?_⟩
      cases enabled with
      | false =>
        rw [hrows]
        rfl
      | true =>
        rw [auditLog_eq, hnil, hrows]
        rfl
    -- the total is the column of the first row
    · obtain ⟨entries, hpage⟩ := mapM_tryFrom_iff.mpr hdecode
      refine ⟨entries, hpage, ?_⟩
      have hne : pageRows db id limit offset ≠ [] := fun hnil =>
        absurd ((pageRows_eq_nil_iff hlimit).mp hnil) (Nat.not_le.mpr hoffset)
      rw [auditLog_eq, hpage, List.isEmpty_eq_false_iff.mpr hne, length_sorted]
      rfl

/-! ## A client that reads the log -/

def AuditLogListResponse.page (r : AuditLogListResponse) : Page AuditLogResponse where
  items := r.entries
  total := r.total
  limit := r.limit.toNat
  offset := r.offset.toNat

/-- The pages of the endpoint at a limit. -/
def auditPages (display : RepoError → String) (enabled : Bool) (db : System) (id : TaskId)
    (limit : Option Int) (offset : ℕ) : Except AppError (Page AuditLogResponse) :=
  (getAuditLog display enabled db id limit (some offset)).map AuditLogListResponse.page

/-- A client that asks for pages until their total is reached gets every entry of the task once, in
the order of their timestamps and ids, and the same total on every page. -/
def ReadsAuditLog (display : RepoError → String) (enabled : Bool) (db : System) (id : TaskId)
    (limit : Option Int) : Prop :=
  ∃ pages, Reads (auditPages display enabled db id limit) 0 pages ∧
    (∃ entries, ((auditRows db id).insertionSort ReadsBefore).mapM AuditLogEntry.tryFrom =
        .ok entries ∧ pages.flatMap Page.items = entries.map AuditLogResponse.ofEntry) ∧
    ∀ page ∈ pages, page.total = (auditRows db id).length

section Client

variable {db : System} {id : TaskId} {record : TaskRecord} (display : RepoError → String)
  (enabled : Bool) (limit : Option Int)

/-- What the endpoint replies for a task that is found. -/
theorem auditPages_eq (hfind : findTask db.table id = .ok (some record)) :
    ∃ size : ℕ, 1 ≤ size ∧ ∀ offset : ℕ, auditPages display enabled db id limit offset =
      ((auditLog enabled db id size offset).mapError (AppError.ofTaskError display)).map fun result =>
        ⟨result.entries.map .ofEntry, result.total, size, offset⟩ := by
  -- the limit is clamped to the same size for every page
  obtain ⟨size, hsize⟩ : ∃ size : ℕ,
      (size : Int) = max 1 (min (limit.getD defaultAuditLimit) 1000) :=
    ⟨_, Int.toNat_of_nonneg (by omega)⟩
  refine ⟨size, by omega, fun offset => ?_⟩
  have hoffset : max ((some (offset : Int)).getD 0) 0 = offset := max_eq_left (Int.natCast_nonneg _)
  unfold auditPages getAuditLog
  simp only [hoffset, ← hsize, hfind]
  cases auditLog enabled db id size offset with
  | error e => rfl
  | ok result => rfl

/-- Where the log is disabled there is one page, and it is empty. -/
theorem auditPages_disabled (hfind : findTask db.table id = .ok (some record)) (offset : ℕ) :
    ∃ page, auditPages display false db id limit offset = .ok page ∧ page.items = [] ∧
      page.total = 0 := by
  obtain ⟨size, -, heq⟩ := auditPages_eq display false limit hfind
  exact ⟨_, heq offset, rfl, rfl⟩

/-- Where the log is enabled and its rows can be decoded, the endpoint has the pages of the
entries. -/
theorem pagesOf_auditPages (hfind : findTask db.table id = .ok (some record))
    {entries : List AuditLogEntry}
    (hentries : ((auditRows db id).insertionSort ReadsBefore).mapM AuditLogEntry.tryFrom =
      .ok entries) :
    PagesOf (entries.map AuditLogResponse.ofEntry) (auditPages display true db id limit) := by
  intro offset hoffset
  obtain ⟨size, hsize, heq⟩ := auditPages_eq display true limit hfind
  have hrows := forall₂_of_mapM hentries
  have hlength : entries.length = (auditRows db id).length := by
    rw [← hrows.length_eq, length_sorted]
  have hpage : (pageRows db id size offset).mapM AuditLogEntry.tryFrom =
      .ok ((entries.drop offset).take size) :=
    mapM_of_forall₂ (List.forall₂_take _ (List.forall₂_drop _ hrows))
  rw [List.length_map, hlength] at hoffset
  refine ⟨⟨((entries.drop offset).take size).map .ofEntry, (auditRows db id).length, size, offset⟩,
    ?_, ⟨?_, ?_⟩, rfl, hsize⟩
  · -- a page within the log has its total, and so has the empty page of an empty log
    have htotal : (if (pageRows db id size offset).isEmpty then 0
        else ((auditRows db id).insertionSort ReadsBefore).length) = (auditRows db id).length := by
      rw [length_sorted]
      by_cases hnil : pageRows db id size offset = []
      · have hend := (pageRows_eq_nil_iff hsize).mp hnil
        rw [if_pos (List.isEmpty_iff.mpr hnil)]
        omega
      · rw [if_neg (by rwa [List.isEmpty_iff])]
    rw [heq, auditLog_eq, hpage, htotal]
    rfl
  · rw [List.map_take, List.map_drop]
  · rw [List.length_map, hlength]

/-- **A client that reads the log gets all of it exactly where there is none, or the log is enabled
and its rows can be decoded.** -/
theorem readsAuditLog_iff (hfind : findTask db.table id = .ok (some record)) :
    ReadsAuditLog display enabled db id limit ↔
      auditRows db id = [] ∨ enabled = true ∧ ∀ x ∈ auditRows db id, x.2.Decodes := by
  have hmem : ∀ x, x ∈ (auditRows db id).insertionSort ReadsBefore ↔ x ∈ auditRows db id :=
    fun _ => (List.perm_insertionSort ReadsBefore _).mem_iff
  constructor
  · rintro ⟨pages, hreads, ⟨entries, hentries, -⟩, htotal⟩
    -- the first page has the total the client stops at
    cases enabled with
    | false =>
      obtain ⟨page, hpage, hget⟩ := hreads.exists_first
      obtain ⟨page', hget', -, hzero⟩ := auditPages_disabled display limit hfind 0
      obtain rfl := Except.ok.inj (hget.symm.trans hget')
      have hlength := htotal page hpage
      rw [hzero] at hlength
      exact .inl (List.length_eq_zero_iff.mp hlength.symm)
    | true =>
      exact .inr ⟨rfl, fun x hx => mapM_tryFrom_iff.mp ⟨entries, hentries⟩ x ((hmem x).mpr hx)⟩
  · intro h
    have hdecode : ∀ x ∈ auditRows db id, x.2.Decodes := by
      rcases h with hnil | ⟨-, hdecode⟩
      · rw [hnil]
        exact List.forall_mem_nil _
      · exact hdecode
    obtain ⟨entries, hentries⟩ := mapM_tryFrom_iff.mpr fun x hx => hdecode x ((hmem x).mp hx)
    cases enabled with
    | false =>
      have hnil : auditRows db id = [] := by simpa using h
      obtain ⟨page, hget, hitems, hzero⟩ := auditPages_disabled display limit hfind 0
      refine ⟨[page], .last hget (by rw [hzero]; exact Nat.zero_le _), ⟨[], ?_, ?_⟩, ?_⟩
      · rw [hnil]
        rfl
      · rw [List.flatMap_singleton, hitems]
        rfl
      · intro p hp
        rw [List.mem_singleton.mp hp, hzero, hnil]
        rfl
    | true =>
      obtain ⟨pages, hreads, hitems, htotal⟩ :=
        (pagesOf_auditPages display limit hfind hentries).reads_all
      refine ⟨pages, hreads, ⟨entries, hentries, hitems⟩, fun page hpage => ?_⟩
      rw [htotal page hpage, List.length_map, ← (forall₂_of_mapM hentries).length_eq, length_sorted]

end Client

/-! ## The log of a run -/

theorem isOk_parseStatus (s : TaskStatus) : (parseStatus s.asStr).isOk = true := by
  have hparse : parseStatus s.asStr = .ok s := parseStatus_statusToStr s
  rw [hparse]
  rfl

theorem decodes_row (s s' : TaskStatus) {x : AuditEntry} {b : Began}
    (hfrom : x.fromStatus = some s.asStr) (hto : x.toStatus = s'.asStr) : (x.row b).Decodes := by
  show ∀ t ∈ x.fromStatus.toList ++ [x.toStatus], (parseStatus t).isOk = true
  rw [hfrom, hto]
  exact List.forall_mem_cons.mpr
    ⟨isOk_parseStatus s, List.forall_mem_singleton.mpr (isOk_parseStatus s')⟩

/-- Every operation logs statuses the program knows. -/
theorem Op.entry?_decodes {op : Op} {f : TaskRow → AuditEntry} (h : op.entry? = some f)
    (r : TaskRow) (b : Began) : ((f r).row b).Decodes := by
  cases op with
  -- the statuses are constants of the operation, but for three that look at the row
  | save | saveIdempotent | inTx =>
    cases h
    exact List.forall_mem_singleton.mpr (isOk_parseStatus .pending)
  | claimNext =>
    cases h
    exact decodes_row .pending .running rfl rfl
  | suspend =>
    cases h
    exact decodes_row .running .suspended rfl rfl
  | complete =>
    cases h
    exact decodes_row .running .completed rfl rfl
  | fail =>
    cases h
    exact decodes_row .running r.status rfl rfl
  | signal =>
    cases h
    exact decodes_row .suspended .pending rfl rfl
  | releaseLeaseForTask | releaseLeasesForWorker =>
    cases h
    exact decodes_row .running .pending rfl rfl
  | recoverZombieTasks =>
    cases h
    -- a recovery logs a retry and a failure from one loop
    show ((if r.status = .pending then recoveredEntry r else exhaustedEntry r).row b).Decodes
    by_cases hp : r.status = .pending
    · rw [if_pos hp]
      exact decodes_row .running .pending rfl rfl
    · rw [if_neg hp]
      exact decodes_row .running .failed rfl rfl
  | cancel =>
    cases h
    by_cases hs : r.suspendedAt.isSome = true
    · exact decodes_row .suspended .cancelled (congrArg some (if_pos hs)) rfl
    · exact decodes_row .pending .cancelled (congrArg some (if_neg hs)) rfl
  | expireSuspendedTasks =>
    cases h
    exact decodes_row .suspended .failed rfl rfl
  | cleanupExpiredIdempotencyKeys | findById | writeCheckpoint => cases h

/-- The audit rows of a run can be decoded. -/
theorem Runs.audit_decodes {ok : List Outcome → System → Move → Prop} {os : List Outcome}
    {db : System}
    (h : Runs ok .empty os db) (id : TaskId) : ∀ x ∈ auditRows db id, x.2.Decodes := by
  intro x hx
  obtain ⟨_, _, b, _, _, _, f, -, -, -, hf, c, -, hrow⟩ :=
    Runs.mem_log h (List.mem_of_mem_filter hx)
  rw [hrow]
  exact Op.entry?_decodes hf c.new b

/-- **A page of the audit log is returned with its total exactly where the task has no audit rows,
or the log is enabled and the page starts before its end; and a client that reads the log to its
total gets all of it exactly where there is none, or it is enabled**; provided that the rows can be
decoded, as those of every run can. -/
theorem audit_paging_iff (enabled : Bool) (db : System) (id : TaskId) :
    (∀ limit offset : ℕ, 1 ≤ limit → (ReturnsAuditPage enabled db id limit offset ↔
      auditRows db id = [] ∨ enabled = true ∧ offset < (auditRows db id).length ∧
        ∀ x ∈ pageRows db id limit offset, x.2.Decodes)) ∧
    (∀ display limit record, findTask db.table id = .ok (some record) →
      (ReadsAuditLog display enabled db id limit ↔
        auditRows db id = [] ∨ enabled = true ∧ ∀ x ∈ auditRows db id, x.2.Decodes)) ∧
    ∀ ok os, Runs ok .empty os db → ∀ x ∈ auditRows db id, x.2.Decodes :=
  ⟨fun _ _ hlimit => returnsAuditPage_iff hlimit,
    fun display limit _ hfind => readsAuditLog_iff display enabled limit hfind,
    fun _ _ h => Runs.audit_decodes h id⟩

/-- The second page of the sample of the audit log, and a client that reads it in pages of three. -/
theorem audited_paged :
    ReturnsAuditPage true (System.after auditedMoves) ⟨1⟩ 2 2 ∧
      ReadsAuditLog (fun _ => "") true (System.after auditedMoves) ⟨1⟩ (some 3) := by
  have hdecode : ∀ x ∈ auditRows (System.after auditedMoves) ⟨1⟩, x.2.Decodes := by decide +kernel
  obtain ⟨hpage, hread, -⟩ := audit_paging_iff true (System.after auditedMoves) ⟨1⟩
  refine ⟨(hpage 2 2 (by decide)).mpr (.inr ⟨rfl, by decide +kernel, by decide +kernel⟩), ?_⟩
  have hsome : ((findTask (System.after auditedMoves).table ⟨1⟩).toOption.bind id).isSome = true := by
    decide +kernel
  obtain ⟨record, hfind⟩ : ∃ record, findTask (System.after auditedMoves).table ⟨1⟩ =
      .ok (some record) := by
    generalize findTask (System.after auditedMoves).table ⟨1⟩ = x at hsome
    rcases x with e | _ | record
    · cases hsome
    · cases hsome
    · exact ⟨record, rfl⟩
  exact (hread _ _ record hfind).mpr (.inr ⟨rfl, hdecode⟩)

/-- **A page past the end has the total zero**, of four rows. -/
theorem past_the_end :
    auditLog true (System.after auditedMoves) ⟨1⟩ 2 4 = .ok ⟨[], 0⟩ ∧
      (auditRows (System.after auditedMoves) ⟨1⟩).length = 4 ∧
      ¬ ReturnsAuditPage true (System.after auditedMoves) ⟨1⟩ 2 4 := by
  have hlog : auditLog true (System.after auditedMoves) ⟨1⟩ 2 4 = .ok ⟨[], 0⟩ := by decide +kernel
  have hlength : (auditRows (System.after auditedMoves) ⟨1⟩).length = 4 := by decide +kernel
  refine ⟨hlog, hlength, ?_⟩
  rintro ⟨entries, -, hpage⟩
  have htotal := congrArg ListAuditLogResult.total (Except.ok.inj (hlog.symm.trans hpage))
  rw [hlength] at htotal
  cases htotal

end IronDefer
