import IronDefer.Api.AuditHistory
import IronDefer.Api.Sightings
import IronDefer.Api.TaskList
import Mathlib.Data.Prod.Lex

/-!
# Paging while the system works

A client reads the tasks of a queue, or the audit log of a task, page by page, and between two pages
the system goes on: tasks are submitted, claimed and finished, and audit rows are written, with
timestamps that may lie before the place the client has reached. Nothing that was there when it
began escapes it, since no row is removed and none changes its place among the others.

## Main definitions

* `Becomes`, `Instants`: the system goes on, between the pages and between the queries of one
* `listTasksAt`, `listTasksReplyAt`, `getAuditLogAt`: the endpoints, over what their queries see
* `taskPages`, `auditPagesAt`: the pages a client gets
* `ListTasksFilter.Steady`: what the filter admits it goes on admitting

## Main results

* `listing_misses_nothing`: **a client that reads the list to its end gets every task that was in it
  when it began**
* `audit_log_misses_nothing`: **and so it does every entry of an audit log**
-/

namespace IronDefer

open RowStore

/-! ## Instants -/

/-- The system goes on from one state to another, in whatever way. -/
def Becomes (db d : System) : Prop := ∃ os, Runs (fun _ _ _ => True) db os d

theorem Becomes.refl (db : System) : Becomes db db := ⟨[], .init⟩

theorem Becomes.trans {db d d' : System} (h : Becomes db d) (h' : Becomes d d') :
    Becomes db d' := by
  obtain ⟨os, h⟩ := h
  obtain ⟨ps, h'⟩ := h'
  exact ⟨os ++ ps, h.trans h'⟩

/-- The states at which the two queries of a request are answered. -/
abbrev Instants := System × System

/-- A request that is made after the other has been answered. -/
def Instants.Later (s s' : Instants) : Prop := Becomes s.2 s'.1 ∧ Becomes s'.1 s'.2

/-- The instants lie after a state, one after the other. -/
def Instants.After (db : System) (s : Instants) : Prop := Becomes db s.1 ∧ Becomes s.1 s.2

theorem Instants.After.later {db : System} {s s' : Instants} (h : After db s) (h' : Later s s') :
    After db s' :=
  ⟨(h.1.trans h.2).trans h'.1, h'.2⟩

theorem Instants.Later.of_becomes {db d : System} (h : Becomes db d) : Later (db, db) (d, d) :=
  ⟨h, .refl d⟩

theorem Instants.Later.refl (db : System) : Later (db, db) (db, db) := .of_becomes (.refl db)

theorem Instants.After.refl (db : System) : After db (db, db) := ⟨.refl db, .refl db⟩

/-! ## The endpoints -/

/-- `listTasks`, whose rows are selected from one table and counted, where there are none, in
another. -/
def listTasksAt (t t' : Table TaskRow.id) (filter : ListTasksFilter) :
    Except RepoError ListTasksResult := do
  let rows ← selectPage filter.whereClauses filter.limitIdx filter.offsetIdx filter.pageBinds t.rows
  let total ← listTotal t' filter rows
  let tasks ← rows.mapM fun x => TaskRecord.tryFrom x.1
  return ⟨tasks, total⟩

/-- `GET /tasks`, over the tables its two queries see. -/
def listTasksReplyAt (display : RepoError → String) (t t' : Table TaskRow.id)
    (params : ListTasksQuery) : Except AppError ListTasksResponse := do
  let filter ← params.filter
  let result ← (listTasksAt t t' filter).mapError (.ofTaskError display)
  return ⟨result.tasks.map .ofRecord, result.total, filter.limit, filter.offset⟩

/-- `GET /tasks/{id}/audit`, over the states in which it finds the task and reads the log. -/
def getAuditLogAt (display : RepoError → String) (enabled : Bool) (db db' : System) (id : TaskId)
    (limit offset : Option Int) : Except AppError AuditLogListResponse := do
  let limit := max 1 (min (limit.getD defaultAuditLimit) 1000)
  let offset := max (offset.getD 0) 0
  match ← (findTask db.table id).mapError (.ofTaskError display) with
  | none => throw (.ofTaskError display (.notFound id))
  | some _ =>
    let result ← (auditLog enabled db' id limit offset).mapError (.ofTaskError display)
    return ⟨result.entries.map .ofEntry, result.total, limit, offset⟩

def ListTasksResponse.page (r : ListTasksResponse) : Page TaskResponse where
  items := r.tasks
  total := r.total
  limit := r.limit
  offset := r.offset

/-- The pages of the list, for the parameters of a client. -/
def taskPages (display : RepoError → String) (params : ListTasksQuery) (s : Instants)
    (offset : ℕ) : Except AppError (Page TaskResponse) :=
  (listTasksReplyAt display s.1.table s.2.table { params with offset := some offset }).map
    ListTasksResponse.page

/-- The pages of the audit log of a task. -/
def auditPagesAt (display : RepoError → String) (enabled : Bool) (id : TaskId)
    (limit : Option Int) (s : Instants) (offset : ℕ) : Except AppError (Page AuditLogResponse) :=
  (getAuditLogAt display enabled s.1 s.2 id limit (some offset)).map AuditLogListResponse.page

/-- What is in the second of two lists that correspond stands for something in the first. -/
theorem exists_of_forall₂ {α β : Type} {R : α → β → Prop} {xs : List α} {ys : List β}
    (h : List.Forall₂ R xs ys) {y : β} (hy : y ∈ ys) : ∃ x ∈ xs, R x y := by
  induction h with
  | nil => cases hy
  | @cons x _ _ _ hxy _ ih =>
    rcases List.mem_cons.mp hy with rfl | hy
    · exact ⟨x, List.mem_cons_self, hxy⟩
    · obtain ⟨x, hx, hxy⟩ := ih hy
      exact ⟨x, List.mem_cons_of_mem _ hx, hxy⟩

/-! ## A page of the list -/

section List

variable {filter : ListTasksFilter} {t t' : Table TaskRow.id} {params : ListTasksQuery}

/-- A page has the rows of the first table that are asked for, and where there are some, the number
of the rows there. -/
theorem listTasksAt_ok {result : ListTasksResult} (h : listTasksAt t t' filter = .ok result) :
    Decoded (taskPage filter t) result.tasks ∧
      (taskPage filter t ≠ [] → result.total = (t.rows.filter filter.admits).length) := by
  unfold listTasksAt at h
  rw [selectPage_filter] at h
  obtain ⟨_, hselect, h⟩ := exists_of_bind_ok h
  cases hselect
  obtain ⟨total, htotal, h⟩ := exists_of_bind_ok h
  obtain ⟨tasks, htasks, h⟩ := exists_of_bind_ok h
  cases h
  constructor
  · exact List.forall₂_map_left_iff.mp (forall₂_of_mapM htasks)
  · intro hne
    obtain ⟨r, rows, hrows⟩ := List.exists_cons_of_ne_nil hne
    rw [hrows] at htotal
    exact (Except.ok.inj htotal).symm

/-- What the parameters ask for at an offset. -/
theorem ListTasksQuery.filter_at (h : params.filter = .ok filter) (offset : ℕ) :
    ({ params with offset := some offset } : ListTasksQuery).filter =
      .ok { filter with offset := min offset maxOffset } ∧ 1 ≤ filter.limit := by
  obtain ⟨queue, status, limit, offset'⟩ := params
  unfold ListTasksQuery.filter at h ⊢
  obtain ⟨status', hstatus, h⟩ := exists_of_bind_ok h
  obtain ⟨queue', hqueue, h⟩ := exists_of_bind_ok h
  simp only [hstatus, hqueue, bind, Except.bind] at h ⊢
  by_cases hnone : queue'.isNone && status'.isNone
  · rw [if_pos hnone] at h
    cases h
  · rw [if_neg hnone] at h ⊢
    cases h
    exact ⟨rfl, Nat.le_max_left _ _⟩

/-- What a page of the list is. -/
theorem taskPages_ok {display : RepoError → String} (hfilter : params.filter = .ok filter)
    {s : Instants} {offset : ℕ} {page : Page TaskResponse}
    (h : taskPages display params s offset = .ok page) :
    page.offset = min offset maxOffset ∧ page.limit = filter.limit ∧
      (∃ tasks, page.items = tasks.map .ofRecord ∧
        Decoded (((sortedTasks filter s.1.table).drop page.offset).take page.limit) tasks) ∧
      (page.items ≠ [] → page.total = (sortedTasks filter s.1.table).length) := by
  obtain ⟨hat, -⟩ := ListTasksQuery.filter_at hfilter offset
  unfold taskPages listTasksReplyAt at h
  rw [hat] at h
  obtain ⟨response, hresponse, rfl⟩ := eq_of_map_eq_ok h
  obtain ⟨_, hok, hresponse⟩ := exists_of_bind_ok hresponse
  cases hok
  cases hlist : listTasksAt s.1.table s.2.table { filter with offset := min offset maxOffset } with
  | error e =>
    rw [hlist] at hresponse
    cases hresponse
  | ok result =>
    rw [hlist] at hresponse
    cases hresponse
    obtain ⟨hdecoded, htotal⟩ := listTasksAt_ok hlist
    -- the endpoint and the repository have the same cap
    have hcap : min (min offset maxOffset) maxPaginationOffset = min offset maxOffset :=
      Nat.min_eq_left (Nat.min_le_right _ _)
    have hpage : taskPage { filter with offset := min offset maxOffset } s.1.table =
        ((sortedTasks filter s.1.table).drop (min offset maxOffset)).take filter.limit := by
      unfold taskPage
      rw [hcap]
      rfl
    rw [hpage] at hdecoded htotal
    refine ⟨rfl, rfl, ⟨result.tasks, rfl, hdecoded⟩, fun hne => ?_⟩
    rw [(perm_sortedTasks filter s.1.table).length_eq]
    apply htotal
    rintro hnil
    rw [hnil] at hdecoded
    exact hne (by rw [show (ListTasksResponse.page _).items = result.tasks.map .ofRecord from rfl,
      List.forall₂_nil_left_iff.mp hdecoded, List.map_nil])

/-- The ids of the tasks in the list, as its rows are read. -/
def listedIds (filter : ListTasksFilter) (s : Instants) : List TaskId :=
  (sortedTasks filter s.1.table).map TaskRow.id

/-- The pages are those of the list at the instant their rows are read. -/
theorem pagesAt_taskPages (display : RepoError → String) (hfilter : params.filter = .ok filter)
    (s : Instants) : PagesAt (taskPages display params) TaskResponse.id (listedIds filter) s where
  offset_le h := by
    obtain ⟨hoffset, -⟩ := taskPages_ok hfilter h
    exact hoffset ▸ Nat.min_le_left _ _
  items h := by
    obtain ⟨-, -, ⟨tasks, hitems, hdecoded⟩, -⟩ := taskPages_ok hfilter h
    rw [hitems, List.map_map, listedIds, ← List.map_drop, ← List.map_take, ← hdecoded.map_id]
    rfl
  ends {offset page} h hend := by
    obtain ⟨-, hlimit, ⟨tasks, hitems, hdecoded⟩, htotal⟩ := taskPages_ok hfilter h
    rw [listedIds, List.length_map]
    by_cases hnil : page.items = []
    · -- a page without rows starts at the end of the list or beyond
      rw [hitems, List.map_eq_nil_iff] at hnil
      have hlen := hdecoded.length_eq
      obtain ⟨-, hpos⟩ := ListTasksQuery.filter_at hfilter offset
      rw [hnil, List.length_take, List.length_drop, List.length_nil] at hlen
      omega
    · exact htotal hnil ▸ hend

end List

/-! ## The list goes on -/

section Goes

variable {ok : List Outcome → System → Move → Prop} {t : Table TaskRow.id}
  {log : List (ℕ × AuditRow)} {n : ℕ} {os : List Outcome} {db d d' : System}
  {filter : ListTasksFilter} {params : ListTasksQuery}

/-- What the filter admits it goes on admitting: it asks for a queue, or for a status that is not
left again. -/
def ListTasksFilter.Steady (filter : ListTasksFilter) : Prop :=
  ∀ s ∈ filter.status, s.isTerminal = true

theorem ListTasksFilter.Steady.admits (hsteady : filter.Steady) {r w : TaskRow}
    (hsame : SameTask r w) {p : List (Action × Life)}
    (hpath : Life.Path (some r.life) p (some w.life)) (h : filter.admits r = true) : filter.admits w = true := by
  unfold ListTasksFilter.admits at h ⊢
  rw [Bool.and_eq_true, Option.all_eq_true, Option.all_eq_true] at h ⊢
  refine ⟨fun q hq => ?_, fun s hs => ?_⟩
  · rw [hsame.queue]
    exact h.1 q hq
  · have hr : r.status = s := of_decide_eq_true (h.2 s hs)
    have ht : r.status.isTerminal = true := hr ▸ hsteady s hs
    have hw := hpath.terminal ht
    exact decide_eq_true (hw.trans hr)

/-- A row there is stays, as a version of its task. -/
theorem Becomes.version (h : Runs ok (.idle t log n) os db) (hd : Becomes db d)
    (hd' : Becomes d d') {r : TaskRow} (hr : r ∈ d.table.rows) :
    ∃ w ∈ d'.table.rows, SameTask r w ∧ ∃ p, Life.Path (some r.life) p (some w.life) := by
  obtain ⟨ps, hd⟩ := hd
  obtain ⟨qs, hd'⟩ := hd'
  have hrun := (h.mono fun _ _ _ _ => trivial).trans hd
  obtain ⟨w, hw, hsame, hpath⟩ := Runs.version_later (hrun.trans hd') hrun (Table.get_key_of_mem hr)
  exact ⟨w, (Table.get_eq_some hw).1, hsame, hpath⟩

/-- The key the list is sorted by. -/
def TaskRow.listKey (r : TaskRow) : ℤ ×ₗ ℕ := toLex (r.createdAt, r.id.uuid)

theorem listedBefore_iff (r w : TaskRow) : ListedBefore r w ↔ r.listKey ≤ w.listKey := by
  rw [TaskRow.listKey, TaskRow.listKey, Prod.Lex.toLex_le_toLex]
  exact Iff.rfl

/-- **What is in the list keeps its place among the others.** -/
theorem Becomes.sublist_sortedTasks (h : Runs ok (.idle t log n) os db) (hsteady : filter.Steady)
    (hd : Becomes db d) (hd' : Becomes d d') :
    ((sortedTasks filter d.table).map TaskRow.id).Sublist
      ((sortedTasks filter d'.table).map TaskRow.id) := by
  have hid : ∀ rows : List TaskRow,
      rows.map TaskRow.id = (rows.map TaskRow.listKey).map fun k => ⟨(ofLex k).2⟩ := fun rows => by
    rw [List.map_map]
    rfl
  rw [hid, hid]
  apply List.Sublist.map
  apply sublist_map_insertionSort listedBefore_iff
  · -- the keys are different since the ids are
    have hn : ((d.table.rows.filter filter.admits).map TaskRow.id).Nodup :=
      d.table.nodup.sublist (List.filter_sublist.map _)
    rw [hid] at hn
    exact hn.of_map
  · intro k hk
    obtain ⟨r, hr, rfl⟩ := List.mem_map.mp hk
    obtain ⟨hmem, hadmits⟩ := List.mem_filter.mp hr
    obtain ⟨w, hw, hsame, p, hpath⟩ := Becomes.version h hd hd' hmem
    refine List.mem_map.mpr ⟨w, List.mem_filter.mpr ⟨hw, hsteady.admits hsame hpath hadmits⟩, ?_⟩
    rw [TaskRow.listKey, TaskRow.listKey, hsame.createdAt, hsame.id]

/-- The log of a later state has the audit rows there have been. -/
theorem Becomes.auditRows_subset (hd : Becomes d d') (id : TaskId) :
    auditRows d id ⊆ auditRows d' id := by
  obtain ⟨os, hd⟩ := hd
  have hlog : d'.log = d.log ++ os.flatMap Output.logs := Reaches.log_eq hd
  unfold auditRows
  rw [hlog, List.filter_append]
  exact List.subset_append_left _ _

end Goes

/-! ## A page of the audit log -/

section Audit

variable {ok : List Outcome → System → Move → Prop} {os : List Outcome} {db d d' : System}
  {id : TaskId} {limit : Option Int} {display : RepoError → String}

/-- What a page of an audit log is. -/
theorem auditPagesAt_ok {s : Instants} {offset : ℕ} {page : Page AuditLogResponse}
    (h : auditPagesAt display true id limit s offset = .ok page) :
    page.offset = offset ∧ 1 ≤ page.limit ∧
      (∃ entries, page.items = entries.map .ofEntry ∧
        (pageRows s.2 id page.limit page.offset).mapM AuditLogEntry.tryFrom = .ok entries) ∧
      (page.items ≠ [] → page.total = (auditRows s.2 id).length) := by
  obtain ⟨response, hresponse, rfl⟩ := eq_of_map_eq_ok h
  obtain ⟨size, hsize⟩ : ∃ size : ℕ,
      (size : Int) = max 1 (min (limit.getD defaultAuditLimit) 1000) :=
    ⟨_, Int.toNat_of_nonneg (by omega)⟩
  have hoffset : max ((some (offset : Int)).getD 0) 0 = offset := max_eq_left (Int.natCast_nonneg _)
  unfold getAuditLogAt at hresponse
  simp only [hoffset, ← hsize] at hresponse
  obtain ⟨found, -, hresponse⟩ := exists_of_bind_ok hresponse
  cases found with
  | none => cases hresponse
  | some record =>
    cases hpage : (pageRows s.2 id size offset).mapM AuditLogEntry.tryFrom with
    | error e =>
      rw [auditLog_eq, hpage] at hresponse
      cases hresponse
    | ok entries =>
      rw [auditLog_eq, hpage] at hresponse
      cases hresponse
      refine ⟨rfl, ?_, ⟨entries, rfl, hpage⟩, fun hne => ?_⟩
      · show 1 ≤ ((size : ℕ) : ℤ).toNat
        omega
      · have hrows : pageRows s.2 id size offset ≠ [] := by
          rintro hnil
          rw [hnil] at hpage
          cases hpage
          exact hne rfl
        show (if (pageRows s.2 id size offset).isEmpty then 0
          else ((auditRows s.2 id).insertionSort ReadsBefore).length) = _
        rw [List.isEmpty_eq_false_iff.mpr hrows, length_sorted]
        rfl

/-- The ids of the entries of an audit log, in the order in which they are read. -/
def auditIds (id : TaskId) (s : Instants) : List ℕ :=
  ((auditRows s.2 id).insertionSort ReadsBefore).map Prod.fst

theorem map_id_of_mapM {rows : List (ℕ × AuditRow)} {entries : List AuditLogEntry}
    (h : rows.mapM AuditLogEntry.tryFrom = .ok entries) :
    entries.map AuditLogEntry.id = rows.map Prod.fst := by
  have hrows := forall₂_of_mapM h
  clear h
  induction hrows with
  | nil => rfl
  | @cons x e rows entries hx _ ih =>
    obtain ⟨_, -, hx⟩ := exists_of_bind_ok hx
    obtain ⟨_, -, hx⟩ := exists_of_bind_ok hx
    cases hx
    exact congrArg (x.1 :: ·) ih

/-- The pages are those of the log at the instant it is read. -/
theorem pagesAt_auditPagesAt (display : RepoError → String) (id : TaskId) (limit : Option Int)
    (s : Instants) :
    PagesAt (auditPagesAt display true id limit) AuditLogResponse.id (auditIds id) s where
  offset_le h := by
    obtain ⟨hoffset, -⟩ := auditPagesAt_ok h
    exact hoffset.le
  items h := by
    obtain ⟨-, -, ⟨entries, hitems, hentries⟩, -⟩ := auditPagesAt_ok h
    rw [hitems, List.map_map, auditIds, ← List.map_drop, ← List.map_take]
    exact map_id_of_mapM hentries
  ends h hend := by
    obtain ⟨-, hpos, ⟨entries, hitems, hentries⟩, htotal⟩ := auditPagesAt_ok h
    rw [auditIds, List.length_map, length_sorted]
    by_cases hnil : (entries.map AuditLogResponse.ofEntry) = []
    · -- the total of an empty page is zero, but it starts at the end of the log or beyond
      rw [List.map_eq_nil_iff] at hnil
      have hrows := (forall₂_of_mapM hentries).length_eq
      rw [hnil, List.length_nil, List.length_eq_zero_iff, pageRows_eq_nil_iff hpos] at hrows
      exact Nat.le_add_right_of_le hrows
    · exact htotal (hitems ▸ hnil) ▸ hend

/-- The key the log is sorted by. -/
def readKey (x : ℕ × AuditRow) : ℤ ×ₗ ℕ := toLex (x.2.timestamp, x.1)

theorem readsBefore_iff (x y : ℕ × AuditRow) : ReadsBefore x y ↔ readKey x ≤ readKey y := by
  rw [readKey, readKey, Prod.Lex.toLex_le_toLex]
  exact Iff.rfl

theorem nodup_auditRows (h : Runs ok .empty os db) (hd : Becomes db d) (id : TaskId) :
    ((auditRows d id).map Prod.fst).Nodup := by
  obtain ⟨ps, hd⟩ := hd
  have hrun : Runs (fun _ _ _ => True) .empty (os ++ ps) d :=
    (h.mono fun _ _ _ _ => trivial).trans hd
  rw [List.Nodup, List.pairwise_map]
  exact (hrun.auditRows_sorted id).imp Nat.ne_of_lt

/-- **What is in the log keeps its place among the others**, wherever the timestamps of the new rows
lie. -/
theorem Becomes.sublist_auditIds (h : Runs ok .empty os db) (hd : Becomes db d)
    (hd' : Becomes d d') (id : TaskId) :
    (((auditRows d id).insertionSort ReadsBefore).map Prod.fst).Sublist
      (((auditRows d' id).insertionSort ReadsBefore).map Prod.fst) := by
  have hfst : ∀ rows : List (ℕ × AuditRow),
      rows.map Prod.fst = (rows.map readKey).map fun k => (ofLex k).2 := fun rows => by
    rw [List.map_map]
    rfl
  have hn := nodup_auditRows h hd id
  rw [hfst] at hn
  rw [hfst, hfst]
  exact (sublist_map_insertionSort readsBefore_iff hn.of_map
    (List.map_subset _ (hd'.auditRows_subset id))).map _

end Audit

/-! ## What a client gets -/

/-- **A client that reads the list to its end gets every task that was in it when it began**,
whatever goes on between its pages and between the queries of one, where it asks for a queue, or for
a status that is not left again. What it gets is the task as it is by then. -/
theorem listing_misses_nothing {ok : List Outcome → System → Move → Prop} {t : Table TaskRow.id}
    {log : List (ℕ × AuditRow)} {n : ℕ} {os : List Outcome} {db : System}
    (h : Runs ok (.idle t log n) os db) (display : RepoError → String) {params : ListTasksQuery}
    {filter : ListTasksFilter} (hfilter : params.filter = .ok filter) (hsteady : filter.Steady)
    {pages : List (Page TaskResponse)}
    (hreads : ReadsOn Instants.Later (taskPages display params) (db, db) 0 pages) {r : TaskRow}
    (hr : r ∈ db.table.rows) (hadmits : filter.admits r = true) :
    ∃ page ∈ pages, ∃ x ∈ page.items, ∃ w record, TaskRecord.tryFrom w = .ok record ∧
      x = .ofRecord record ∧ SameTask r w ∧ ∃ p, Life.Path (some r.life) p (some w.life) := by
  have hk : r.id ∈ listedIds filter (db, db) := by
    have hmem := List.mem_filter.mpr ⟨hr, hadmits⟩
    exact List.mem_map_of_mem ((perm_sortedTasks filter db.table).mem_iff.mpr hmem)
  obtain ⟨page, hpage, hitem, s, offset, hs, hread⟩ := hreads.sees (I := Instants.After db)
    (fun hs hl => ⟨hs.later hl, Becomes.sublist_sortedTasks h hsteady hs.1 (hs.2.trans hl.1),
      nodup_sortedTasks filter _, pagesAt_taskPages display hfilter _⟩)
    (.refl db) hk (Nat.zero_le _)
  -- the item is decoded from the version of the row that the page has been read with
  obtain ⟨x, hx, hid⟩ := List.mem_map.mp hitem
  refine ⟨page, hpage, x, hx, ?_⟩
  obtain ⟨-, -, ⟨tasks, hitems, hdecoded⟩, -⟩ := taskPages_ok hfilter hread
  rw [hitems] at hx
  obtain ⟨record, hrecord, rfl⟩ := List.mem_map.mp hx
  obtain ⟨w, hw, hdecode⟩ := exists_of_forall₂ hdecoded hrecord
  have hwmem : w ∈ s.1.table.rows := by
    have hsorted := List.drop_subset _ _ (List.take_subset _ _ hw)
    exact (List.mem_filter.mp ((perm_sortedTasks filter _).mem_iff.mp hsorted)).1
  refine ⟨w, record, hdecode, rfl, ?_⟩
  obtain ⟨v, hv, hsame, hpath⟩ := Becomes.version h (.refl db) hs.1 hr
  have hvw : v = w := by
    apply Table.eq_of_key_eq hv hwmem
    have hrecord := (tryFrom_eq_ok_iff.mp hdecode).2
    exact hsame.id.trans (hid.symm.trans (congrArg TaskRecord.id hrecord).symm)
  exact hvw ▸ ⟨hsame, hpath⟩

/-- A submission to the queue of the sample. -/
def samplePlain (uuid : ℕ) : TaskRecord :=
  newTask ⟨uuid⟩ 0 sampleQueue sampleKind sampleJson .default .default 0 none none none

/-- Two tasks are submitted. -/
def listedMoves : List Move :=
  serve 1 (callOf (.save (samplePlain 1))) 10 [.all] ++
  serve 2 (callOf (.save (samplePlain 2))) 20 [.all]

/-- Another is submitted by a transaction that has begun before them, and the first is claimed. -/
def overtakenSubmission : List Move :=
  serve 3 (callOf (.save (samplePlain 3))) 5 [.all] ++
  serve 4 (callOf (.claimNext sampleQueue sampleWorker 1000000000 none)) 30 [.all]

/-- The tasks of the queue, one a page. -/
def queueParams : ListTasksQuery := ⟨some "default", none, some 1, none⟩

theorem exists_ok_of_any {ε α : Type} {x : Except ε α} {p : α → Bool}
    (h : x.toOption.any p = true) : ∃ a, x = .ok a ∧ p a = true := by
  cases x with
  | error e => cases h
  | ok a => exact ⟨a, rfl, h⟩

/-- The state in which the client begins, and the one in which it goes on. -/
def listedAt : System := System.after listedMoves

def overtakenAt : System := (listedAt.resume overtakenSubmission).1

theorem becomes_overtakenAt : Becomes listedAt overtakenAt :=
  ⟨_, Runs.resume overtakenSubmission (.of_forall (fun _ _ _ => trivial) ..) (by decide +kernel)⟩

/-- Where a page leads, and whether it is the last. -/
def pageShows {α : Type} (next : ℕ) (last : Bool) (page : Page α) : Bool :=
  page.offset + page.limit = next && decide (page.total ≤ next) == last

/-- A client that gets three pages. -/
theorem readsOn_of_shows {α : Type} {read : Instants → ℕ → Except AppError (Page α)}
    {s s₁ s₂ s₃ : Instants} (h₁ : Instants.Later s s₁) (h₂ : Instants.Later s₁ s₂)
    (h₃ : Instants.Later s₂ s₃) {first second third : Page α} {i j k : ℕ}
    (hfirst : read s₁ 0 = .ok first) (hmore : pageShows i false first = true)
    (hsecond : read s₂ i = .ok second) (hmore' : pageShows j false second = true)
    (hthird : read s₃ j = .ok third) (hlast : pageShows k true third = true) :
    ReadsOn Instants.Later read s 0 [first, second, third] := by
  simp only [pageShows, Bool.and_eq_true, decide_eq_true_eq, beq_iff_eq, decide_eq_false_iff_not,
    Nat.not_le] at hmore hmore' hlast
  obtain ⟨rfl, hmore⟩ := hmore
  obtain ⟨rfl, hmore'⟩ := hmore'
  obtain ⟨rfl, hlast⟩ := hlast
  exact .more h₁ hfirst hmore (.more h₂ hsecond hmore' (.last h₃ hthird hlast))

/-- In the sample the second page shows the first task again, and the third shows the second, that
has been there when the client began. -/
theorem overtaken_listed : ∃ pages,
    ReadsOn Instants.Later (taskPages (fun _ => "") queueParams) (listedAt, listedAt) 0 pages ∧
      ∃ page ∈ pages, ∃ x ∈ page.items, x.id = ⟨2⟩ := by
  have h : Runs (fun _ _ _ => True) .empty (System.shown listedMoves) listedAt :=
    Runs.of_moves _ (.of_forall (fun _ _ _ => trivial) ..) (by decide +kernel)
  obtain ⟨first, hfirst, hmore⟩ := exists_ok_of_any (x := taskPages (fun _ => "") queueParams
    (listedAt, listedAt) 0) (p := pageShows 1 false) (by decide +kernel)
  obtain ⟨second, hsecond, hmore'⟩ := exists_ok_of_any (x := taskPages (fun _ => "") queueParams
    (overtakenAt, overtakenAt) 1) (p := pageShows 2 false) (by decide +kernel)
  obtain ⟨third, hthird, hlast⟩ := exists_ok_of_any (x := taskPages (fun _ => "") queueParams
    (overtakenAt, overtakenAt) 2) (p := pageShows 3 true) (by decide +kernel)
  have hreads := readsOn_of_shows (.refl listedAt) (.of_becomes becomes_overtakenAt)
    (.refl overtakenAt) hfirst hmore hsecond hmore' hthird hlast
  obtain ⟨filter, hfilter, hsteady⟩ := exists_ok_of_any (x := queueParams.filter)
    (p := fun filter => filter.status.isNone && filter.queue = some sampleQueue) (by decide +kernel)
  simp only [Bool.and_eq_true, Option.isNone_iff_eq_none, decide_eq_true_eq] at hsteady
  obtain ⟨r, hr, hid⟩ : ∃ r ∈ listedAt.table.rows, r.id = ⟨2⟩ ∧ r.queue = sampleQueue.asStr := by
    decide +kernel
  obtain ⟨page, hpage, x, hx, w, record, hw, rfl, hsame, -⟩ :=
    listing_misses_nothing h (fun _ => "") hfilter (by simp [ListTasksFilter.Steady, hsteady.1])
      hreads hr (by simp [ListTasksFilter.admits, hsteady.1, hsteady.2, hid.2])
  refine ⟨_, hreads, page, hpage, _, hx, ?_⟩
  have hrecord := (tryFrom_eq_ok_iff.mp hw).2
  exact (congrArg TaskRecord.id hrecord).symm.trans (hsame.id.trans hid.1)

/-- **A client that reads an audit log to its end gets every entry that was in it when it began**,
whatever is written between its pages, at whatever place of the log. -/
theorem audit_log_misses_nothing {ok : List Outcome → System → Move → Prop} {os : List Outcome}
    {db : System} (h : Runs ok .empty os db) (display : RepoError → String) {id : TaskId}
    {limit : Option Int} {pages : List (Page AuditLogResponse)}
    (hreads : ReadsOn Instants.Later (auditPagesAt display true id limit) (db, db) 0 pages)
    {x : ℕ × AuditRow} (hx : x ∈ auditRows db id) :
    ∃ entry, AuditLogEntry.tryFrom x = .ok entry ∧
      ∃ page ∈ pages, AuditLogResponse.ofEntry entry ∈ page.items := by
  have hmem : ∀ {d : System} {y : ℕ × AuditRow},
      y ∈ (auditRows d id).insertionSort ReadsBefore ↔ y ∈ auditRows d id :=
    (List.perm_insertionSort ReadsBefore _).mem_iff
  have hk : x.1 ∈ auditIds id (db, db) := List.mem_map_of_mem (hmem.mpr hx)
  obtain ⟨page, hpage, hitem, s, offset, hs, hread⟩ := hreads.sees (I := Instants.After db)
    (fun {s s'} hs hl => by
      have hs' := hs.later hl
      refine ⟨hs', Becomes.sublist_auditIds h (hs.1.trans hs.2) (hl.1.trans hl.2) id, ?_,
        pagesAt_auditPagesAt display id limit _⟩
      have hperm := (List.perm_insertionSort ReadsBefore (auditRows s'.2 id)).map Prod.fst
      exact hperm.nodup_iff.mpr (nodup_auditRows h (hs'.1.trans hs'.2) id))
    (.refl db) hk (Nat.zero_le _)
  obtain ⟨-, -, ⟨entries, hitems, hentries⟩, -⟩ := auditPagesAt_ok hread
  -- a row with the same id is the same row
  rw [hitems, List.map_map] at hitem
  obtain ⟨entry, hentry, hid⟩ := List.mem_map.mp hitem
  obtain ⟨y, hy, hdecode⟩ := exists_of_forall₂ (forall₂_of_mapM hentries) hentry
  have hy' : y ∈ auditRows s.2 id := hmem.mp (List.drop_subset _ _ (List.take_subset _ _ hy))
  have hyx : y = x := by
    apply List.inj_on_of_nodup_map (nodup_auditRows h (hs.1.trans hs.2) id) hy'
      ((hs.1.trans hs.2).auditRows_subset id hx)
    obtain ⟨_, -, hfrom⟩ := exists_of_bind_ok hdecode
    obtain ⟨_, -, hto⟩ := exists_of_bind_ok hfrom
    cases hto
    exact hid
  refine ⟨entry, hyx ▸ hdecode, page, hpage, ?_⟩
  rw [hitems]
  exact List.mem_map_of_mem hentry

/-- A task is submitted and claimed, with the audit log enabled. -/
def loggedMoves : List Move :=
  serve 1 ⟨true, .save (samplePlain 1), none⟩ 10 [.all, .all] ++
  serve 2 ⟨true, .claimNext sampleQueue sampleWorker 1000000000 none, none⟩ 20 [.all, .all]

/-- It is suspended, by a transaction that has begun before the claim. -/
def overtakenEntry : List Move := serve 3 ⟨true, .suspend ⟨1⟩, none⟩ 15 [.all, .all]

def loggedAt : System := System.after loggedMoves

def overtakenLog : System := (loggedAt.resume overtakenEntry).1

/-- In the sample the suspension comes in before the claim, and the claim is on the third page. -/
theorem overtaken_logged : ∃ pages,
    ReadsOn Instants.Later (auditPagesAt (fun _ => "") true ⟨1⟩ (some 1)) (loggedAt, loggedAt) 0
        pages ∧
      (auditRows loggedAt ⟨1⟩).length = 2 ∧ ∀ x ∈ auditRows loggedAt ⟨1⟩,
        ∃ entry, AuditLogEntry.tryFrom x = .ok entry ∧
          ∃ page ∈ pages, AuditLogResponse.ofEntry entry ∈ page.items := by
  have h : Runs (fun _ _ _ => True) .empty (System.shown loggedMoves) loggedAt :=
    Runs.of_moves _ (.of_forall (fun _ _ _ => trivial) ..) (by decide +kernel)
  have hlater : Becomes loggedAt overtakenLog :=
    ⟨_, Runs.resume overtakenEntry (.of_forall (fun _ _ _ => trivial) ..) (by decide +kernel)⟩
  obtain ⟨first, hfirst, hmore⟩ := exists_ok_of_any (x := auditPagesAt (fun _ => "") true ⟨1⟩
    (some 1) (loggedAt, loggedAt) 0) (p := pageShows 1 false) (by decide +kernel)
  obtain ⟨second, hsecond, hmore'⟩ := exists_ok_of_any (x := auditPagesAt (fun _ => "") true ⟨1⟩
    (some 1) (overtakenLog, overtakenLog) 1) (p := pageShows 2 false) (by decide +kernel)
  obtain ⟨third, hthird, hlast⟩ := exists_ok_of_any (x := auditPagesAt (fun _ => "") true ⟨1⟩
    (some 1) (overtakenLog, overtakenLog) 2) (p := pageShows 3 true) (by decide +kernel)
  have hreads := readsOn_of_shows (.refl loggedAt) (.of_becomes hlater) (.refl overtakenLog)
    hfirst hmore hsecond hmore' hthird hlast
  refine ⟨_, hreads, by decide +kernel, fun x hx => ?_⟩
  exact audit_log_misses_nothing h (fun _ => "") hreads hx

end IronDefer
