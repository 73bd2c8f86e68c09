import IronDefer.Infrastructure.Row
import IronDefer.RowStore.Program
import IronDefer.RowStore.Runs

/-!
# Table persistence

Building an engine brings the persistence of the `tasks` table in line with the configuration, in
statements that commit one by one. The foreign key of the audit log is dropped on the way to an
unlogged table. On the way back there is no foreign key left whose name could be read, and so none
is restored.

## Main definitions

* `Catalog`, `Ddl`, `Ddl.exec`: the two tables, and the statements of a build on them
* `reconcileTablePersistence`, `setTablePersistence`, `build`: the statements a build sends
* `Deployment.step`: builds one after the other, with engine runs, lost connections and crashes
* `Restored`: the table is permanent and the audit log refers to it

## Main results

* `restored_iff`: **a build leaves the foreign key in place exactly where none before has dropped
  it**, which every build of an unlogged table does
* `foreign_key_lost`: a round trip after which an audit row refers to no task
-/

namespace IronDefer

open RowStore

/-! ## The catalog -/

/-- The persistence of a table, as `pg_class.relpersistence` has it. -/
inductive TablePersistence where
  | permanent
  | unlogged
  | temporary
  deriving DecidableEq, Repr

namespace TablePersistence

def isUnlogged : TablePersistence → Bool
  | unlogged => true
  | permanent | temporary => false

/-- The keyword of `ALTER TABLE … SET`. -/
def alterTableKeyword : TablePersistence → Option String
  | permanent => some "LOGGED"
  | unlogged => some "UNLOGGED"
  | temporary => none

/-- The code in the system catalog. -/
def code : TablePersistence → String
  | permanent => "p"
  | unlogged => "u"
  | temporary => "t"

def tryFrom (s : String) : Except String TablePersistence :=
  if s = "p" then .ok permanent
  else if s = "u" then .ok unlogged
  else if s = "t" then .ok temporary
  else .error ("unknown pg_class.relpersistence value: " ++ debugText s)

@[simp] theorem tryFrom_code (p : TablePersistence) : tryFrom p.code = .ok p := by
  cases p <;> rfl

end TablePersistence

/-- The `tasks` table: its persistence, and the tasks in it. -/
structure TasksTable where
  persistence : TablePersistence
  rows : List TaskId

/-- The `task_audit_log` table: its foreign keys to `tasks` by name, and the tasks its rows refer
to. -/
structure AuditTable where
  foreignKeys : List String
  rows : List TaskId

/-- The tables of a database, where they exist. -/
structure Catalog where
  tasks : Option TasksTable
  auditLog : Option AuditTable

/-- The name the foreign key gets in the migrations. -/
def foreignKeyName : String := "task_audit_log_task_id_fkey"

/-- The tables as the migrations create them. -/
def Catalog.migrated : Catalog where
  tasks := some ⟨.permanent, []⟩
  auditLog := some ⟨[foreignKeyName], []⟩

/-! ## Statements -/

/-- The statements of a build. -/
inductive Ddl where
  | selectPersistence
  | auditTableExists
  | selectForeignKey
  | dropConstraint (name : String)
  | setPersistence (keyword : String)
  | deleteOrphans
  | addConstraint (name : String)
  deriving DecidableEq

/-- What a statement returns. -/
abbrev Ddl.Val : Ddl → Type
  | selectPersistence => Option String
  | auditTableExists => Bool
  | selectForeignKey => Option String
  | dropConstraint _ | setPersistence _ | deleteOrphans | addConstraint _ => Unit

def relationMissing : String := "relation does not exist"

/-- Execute a statement, which commits at once; the text of the error where it is refused. A
permanent table may not refer to an unlogged one, and no row of the audit log may be deleted. -/
def Ddl.exec (c : Catalog) : (q : Ddl) → Except String (Catalog × q.Val)
  | selectPersistence => .ok (c, c.tasks.map fun t => t.persistence.code)
  | auditTableExists => .ok (c, c.auditLog.isSome)
  | selectForeignKey =>
    match c.auditLog, c.tasks with
    | some a, some _ => .ok (c, a.foreignKeys.head?)
    | _, _ => .error relationMissing
  | dropConstraint name =>
    match c.auditLog with
    | some a => .ok (⟨c.tasks, some { a with foreignKeys := a.foreignKeys.filter (· ≠ name) }⟩, ())
    | none => .error relationMissing
  | setPersistence keyword =>
    match c.tasks with
    | none => .error relationMissing
    | some t =>
      if keyword = "LOGGED" then .ok (⟨some { t with persistence := .permanent }, c.auditLog⟩, ())
      else if keyword = "UNLOGGED" then
        if c.auditLog.any fun a => !a.foreignKeys.isEmpty then
          .error "could not change table \"tasks\" to unlogged: a logged table refers to it"
        else .ok (⟨some { t with persistence := .unlogged }, c.auditLog⟩, ())
      else .error "syntax error"
  | deleteOrphans =>
    match c.auditLog, c.tasks with
    | some a, some t =>
      if a.rows.all fun id => decide (id ∈ t.rows) then .ok (c, ())
      else .error "audit log is append-only: DELETE operations are forbidden"
    | _, _ => .error relationMissing
  | addConstraint name =>
    match c.auditLog, c.tasks with
    | some a, some t =>
      if name ∈ a.foreignKeys then .error "constraint already exists"
      else if t.persistence ≠ .permanent then
        .error "constraints on permanent tables may reference only permanent tables"
      else if a.rows.all fun id => decide (id ∈ t.rows) then
        .ok (⟨c.tasks, some { a with foreignKeys := a.foreignKeys ++ [name] }⟩, ())
      else .error "insert or update on table \"task_audit_log\" violates foreign key constraint"
    | _, _ => .error relationMissing

/-! ## Builds -/

/-- A program of such statements, each of which may fail. -/
abbrev Ddls := Program Ddl fun q => Except String q.Val

/-- What a build ends in. -/
abbrev Built := Except RepoError Unit

def storageMessage (text : String) : RepoError := .storage (.message text)

/-- Send a statement; return its error where it fails, else go on with its result. -/
def attempt (q : Ddl) (failed : String → String) (k : q.Val → Ddls Built) : Ddls Built := do
  match ← Program.exec q with
  | .error e => return .error (storageMessage (failed e))
  | .ok r => k r

/-- Restore the foreign key, where its name has been read. -/
def restoreForeignKey (fkName : Option String) : Ddls Built :=
  match fkName with
  | none => .pure (.ok ())
  | some name =>
    attempt .deleteOrphans ("failed to clear orphaned audit logs: " ++ ·) fun _ =>
      attempt (.addConstraint name) ("failed to restore FK constraint: " ++ ·) fun _ =>
        .pure (.ok ())

/-- Alter the table, and restore the foreign key where the table becomes permanent. -/
def alterTable (target : TablePersistence) (keyword : String) (fkName : Option String) :
    Ddls Built :=
  attempt (.setPersistence keyword) (fun e => "ALTER TABLE tasks SET " ++ keyword ++ " failed: " ++ e)
    fun _ => if target = .permanent then restoreForeignKey fkName else .pure (.ok ())

/-- Drop the foreign key, where its name has been read, and alter the table. -/
def convertTable (target : TablePersistence) (keyword : String) (fkName : Option String) :
    Ddls Built :=
  match fkName with
  | none => alterTable target keyword none
  | some name =>
    attempt (.dropConstraint name) ("failed to drop FK constraint: " ++ ·) fun _ =>
      alterTable target keyword (some name)

def setTablePersistence (target : TablePersistence) : Ddls Built :=
  match target.alterTableKeyword with
  | none => .unwind
  | some keyword =>
    attempt .auditTableExists ("failed to check task_audit_log existence: " ++ ·) fun hasAuditTable =>
      if hasAuditTable then
        attempt .selectForeignKey ("failed to find FK constraint: " ++ ·) (convertTable target keyword)
      else convertTable target keyword none

def reconcileTablePersistence (wantUnlogged : Bool) : Ddls Built :=
  attempt .selectPersistence ("failed to query table persistence: " ++ ·) fun row =>
    match row with
    | none => .pure (.ok ())
    | some persistence =>
      match TablePersistence.tryFrom persistence with
      | .error msg => .pure (.error (storageMessage msg))
      | .ok p =>
        if wantUnlogged && !p.isUnlogged then setTablePersistence .unlogged
        else if !wantUnlogged && p.isUnlogged then setTablePersistence .permanent
        else .pure (.ok ())

/-- The part of the database configuration a build reads. -/
structure DatabaseConfig where
  unloggedTables : Bool
  auditLog : Bool
  deriving DecidableEq

def DatabaseConfig.validate (config : DatabaseConfig) : Except String Unit :=
  if config.unloggedTables && config.auditLog then
    .error ("UNLOGGED table mode and audit_log are mutually exclusive " ++
      "— UNLOGGED tables do not survive Postgres crash recovery " ++
      "and cannot satisfy audit trail requirements.")
  else .ok ()

/-- A build on a database that has been migrated. -/
def build (config : DatabaseConfig) : Ddls Built :=
  match config.validate with
  | .error reason => .pure (.error (.invalidPayload (.validation reason)))
  | .ok () => reconcileTablePersistence config.unloggedTables

/-! ## Deployments -/

/-- A database, and the build that is under way on it. -/
structure Deployment where
  catalog : Catalog
  building : Option (DatabaseConfig × Ddls Built)

/-- What happens to a deployment: a build begins, executes its next statement, loses it to a failed
connection (before or after it has taken effect), ends, or is abandoned; an engine inserts a task,
or writes an audit row about one; the database crashes, which a build need not notice. -/
inductive Deployment.Event where
  | start (config : DatabaseConfig)
  | exec
  | lost (applied : Bool)
  | finish
  | abandon
  | insertTask (id : TaskId)
  | audit (id : TaskId)
  | crash
  deriving DecidableEq

/-- What an event shows: nothing, a statement that has taken effect, or what a build has ended
in. -/
inductive Deployment.Output where
  | silent
  | executed (q : Ddl)
  | built (config : DatabaseConfig) (result : Built)

/-- A crash empties an unlogged table. -/
def Catalog.crash (c : Catalog) : Catalog :=
  { c with tasks := c.tasks.map fun t => if t.persistence.isUnlogged then { t with rows := [] } else t }

namespace Deployment

/-- Execute the next statement of the build; with `lost`, its result does not arrive. -/
def advance (d : Deployment) (lost : Bool) : Option (Deployment × Output) :=
  match d.building with
  | some (config, .stmt q k) =>
    match q.exec d.catalog with
    | .ok (c, r) =>
      let result := if lost then .error "connection lost" else .ok r
      some (⟨c, some (config, k result)⟩, .executed q)
    | .error e => if lost then none else some (⟨d.catalog, some (config, k (.error e))⟩, .silent)
  | _ => none

/-- One step, where it is enabled, and what it shows. -/
def step (d : Deployment) : Event → Option (Deployment × Output)
  | .start config =>
    match d.building with
    | some _ => none
    | none => some ({ d with building := some (config, build config) }, .silent)
  | .exec => d.advance false
  | .lost true => d.advance true
  | .lost false =>
    match d.building with
    | some (config, .stmt _ k) =>
      some ({ d with building := some (config, k (.error "connection lost")) }, .silent)
    | _ => none
  | .finish =>
    match d.building with
    | some (config, .pure result) => some ({ d with building := none }, .built config result)
    | some (_, .unwind) => some ({ d with building := none }, .silent)
    | _ => none
  | .abandon => some ({ d with building := none }, .silent)
  | .insertTask id =>
    match d.catalog.tasks with
    | some t =>
      if id ∈ t.rows then none
      else some ({ d with
        catalog := { d.catalog with tasks := some { t with rows := t.rows ++ [id] } } }, .silent)
    | none => none
  | .audit id =>
    match d.catalog.tasks, d.catalog.auditLog with
    | some t, some a =>
      if id ∈ t.rows then
        some ({ d with
          catalog := { d.catalog with auditLog := some { a with rows := a.rows ++ [id] } } }, .silent)
      else none
    | _, _ => none
  | .crash => some ({ d with catalog := d.catalog.crash }, .silent)

/-- A migrated database, with no build under way. -/
def migrated : Deployment := ⟨.migrated, none⟩

end Deployment

/-- The runs from a migrated database. -/
abbrev Deployments : List Deployment.Output → Deployment → Prop :=
  Reaches Deployment.step (fun _ _ _ => True) .migrated

/-- The tasks table is permanent. -/
def Catalog.Permanent (c : Catalog) : Prop :=
  c.tasks.any (fun t => t.persistence = .permanent) = true

/-- The tasks table is permanent, the audit log has a foreign key to it, and each of its rows refers
to a task. -/
structure Restored (c : Catalog) : Prop where
  permanent : c.Permanent
  foreignKey : ∃ a, c.auditLog = some a ∧ a.foreignKeys ≠ []
  refers : ∀ t a, c.tasks = some t → c.auditLog = some a → ∀ id ∈ a.rows, id ∈ t.rows

/-- No build has dropped the foreign key. -/
def NeverDropped (os : List Deployment.Output) : Prop :=
  ∀ name, .executed (.dropConstraint name) ∉ os

/-! ## Phases -/

/-- What the builds have made of the tables: nothing, or the foreign key is dropped and the tasks
table is unlogged or not. -/
inductive Phase where
  | intact
  | dropped (unlogged : Bool)
  deriving DecidableEq

namespace Phase

def persistence : Phase → TablePersistence
  | intact | dropped false => .permanent
  | dropped true => .unlogged

def foreignKey? : Phase → Option String
  | intact => some foreignKeyName
  | dropped _ => none

def Refers : Phase → List TaskId → List TaskId → Prop
  | intact, logged, tasks => ∀ id ∈ logged, id ∈ tasks
  | dropped _, _, _ => True

/-- The catalog is in the phase. -/
structure Describes (φ : Phase) (c : Catalog) : Prop where
  tables : ∃ t a, c.tasks = some t ∧ c.auditLog = some a ∧ t.persistence = φ.persistence ∧
    a.foreignKeys = φ.foreignKey?.toList ∧ φ.Refers a.rows t.rows

/-- What a statement returns in a phase, and the phase it leaves, where it takes effect. -/
def Leads (φ : Phase) : (q : Ddl) → q.Val → Phase → Prop
  | .selectPersistence, r, φ' => r = some φ.persistence.code ∧ φ = φ'
  | .auditTableExists, r, φ' => r = true ∧ φ = φ'
  | .selectForeignKey, r, φ' => r = φ.foreignKey? ∧ φ = φ'
  | .dropConstraint _, _, φ' => φ' = .dropped (φ.persistence.isUnlogged)
  | .setPersistence keyword, _, φ' =>
    φ = .intact ∧ keyword = "LOGGED" ∧ φ' = .intact ∨
      (∃ b, φ = .dropped b) ∧ φ' = .dropped (decide (keyword = "UNLOGGED"))
  | .deleteOrphans, _, φ' => φ = φ'
  | .addConstraint _, _, _ => False

/-- The statements a build sends in a phase: none drops another constraint than the foreign key, and
none adds a constraint. -/
def Admits (φ : Phase) : Ddl → Prop
  | .dropConstraint name => φ = .intact ∧ name = foreignKeyName
  | .addConstraint _ => False
  | _ => True

theorem leads_of_exec {φ : Phase} {c c' : Catalog} {q : Ddl} {r : q.Val} (hc : φ.Describes c)
    (hq : φ.Admits q) (h : q.exec c = .ok (c', r)) :
    ∃ φ' : Phase, φ.Leads q r φ' ∧ φ'.Describes c' := by
  have hc' := hc
  obtain ⟨⟨p, ts⟩, ⟨fks, as⟩, ht, ha, rfl, rfl, hrefs⟩ := hc'
  -- queries answer by the phase; the other statements lead to the next one
  cases q with
  | selectPersistence =>
    obtain ⟨rfl, rfl⟩ : c = c' ∧ _ = r := by simpa [Ddl.exec] using h
    exact ⟨φ, ⟨by rw [ht]; rfl, rfl⟩, hc⟩
  | auditTableExists =>
    obtain ⟨rfl, rfl⟩ : c = c' ∧ _ = r := by simpa [Ddl.exec] using h
    exact ⟨φ, ⟨by rw [ha]; rfl, rfl⟩, hc⟩
  | selectForeignKey =>
    obtain ⟨rfl, rfl⟩ : c = c' ∧ _ = r := by simpa [Ddl.exec, ht, ha] using h
    exact ⟨φ, ⟨by cases φ <;> rfl, rfl⟩, hc⟩
  | dropConstraint name =>
    obtain ⟨rfl, rfl⟩ := hq
    obtain rfl : _ = c' := by simpa [Ddl.exec, ha] using h
    exact ⟨.dropped false, rfl, ⟨_, _, ht, rfl, rfl, by simp [foreignKey?], trivial⟩⟩
  | setPersistence keyword =>
    simp only [Ddl.exec, ht] at h
    split at h
    · next hlogged =>
      obtain rfl : _ = c' := by simpa using h
      subst hlogged
      cases φ with
      | intact => exact ⟨.intact, .inl ⟨rfl, rfl, rfl⟩, ⟨_, _, rfl, ha, rfl, rfl, hrefs⟩⟩
      | dropped b =>
        exact ⟨.dropped false, .inr ⟨⟨b, rfl⟩, rfl⟩, ⟨_, _, rfl, ha, rfl, rfl, trivial⟩⟩
    · split at h
      · next hunlogged =>
        subst hunlogged
        cases φ with
        | intact => simp [ha, foreignKey?] at h
        | dropped b =>
          obtain rfl : _ = c' := by simpa [ha, foreignKey?] using h
          exact ⟨.dropped true, .inr ⟨⟨b, rfl⟩, rfl⟩, ⟨_, _, rfl, rfl, rfl, rfl, trivial⟩⟩
      · simp at h
  | deleteOrphans =>
    simp only [Ddl.exec, ha, ht] at h
    split at h
    · obtain rfl : c = c' := by simpa using h
      exact ⟨φ, rfl, hc⟩
    · simp at h
  | addConstraint name => exact hq.elim

/-- An unlogged table has no foreign key whose rows a crash could leave behind. -/
theorem Describes.crash {φ : Phase} {c : Catalog} (h : φ.Describes c) : φ.Describes c.crash := by
  obtain ⟨⟨p, ts⟩, a, ht, ha, rfl, hfk, hrefs⟩ := h
  have ht' : c.crash.tasks =
      some (if φ.persistence.isUnlogged then ⟨φ.persistence, []⟩ else ⟨φ.persistence, ts⟩) := by
    rw [Catalog.crash, ht]
    rfl
  match φ with
  | .intact => exact ⟨_, a, ht', ha, rfl, hfk, hrefs⟩
  | .dropped false => exact ⟨_, a, ht', ha, rfl, hfk, trivial⟩
  | .dropped true => exact ⟨_, a, ht', ha, rfl, hfk, trivial⟩

theorem Describes.insertTask {φ : Phase} {c : Catalog} {t : TasksTable} (h : φ.Describes c)
    (ht : c.tasks = some t) (id : TaskId) :
    φ.Describes { c with tasks := some { t with rows := t.rows ++ [id] } } := by
  obtain ⟨t', a, ht', ha, hp, hfk, hrefs⟩ := h
  obtain rfl : t = t' := by simpa [ht] using ht'
  refine ⟨_, a, rfl, ha, hp, hfk, ?_⟩
  cases φ with
  | intact => exact fun i hi => List.mem_append_left _ (hrefs i hi)
  | dropped _ => trivial

theorem Describes.audit {φ : Phase} {c : Catalog} {t : TasksTable} {a : AuditTable} {id : TaskId}
    (h : φ.Describes c) (ht : c.tasks = some t) (ha : c.auditLog = some a) (hid : id ∈ t.rows) :
    φ.Describes { c with auditLog := some { a with rows := a.rows ++ [id] } } := by
  obtain ⟨t', a', ht', ha', hp, hfk, hrefs⟩ := h
  obtain rfl : t = t' := by simpa [ht] using ht'
  obtain rfl : a = a' := by simpa [ha] using ha'
  refine ⟨t, _, ht, rfl, hp, hfk, ?_⟩
  cases φ with
  | intact =>
    intro i hi
    obtain hi | rfl : i ∈ a.rows ∨ i = id := by simpa using hi
    · exact hrefs i hi
    · exact hid
  | dropped _ => trivial

/-- Whatever its statements return, and whichever of their results are lost, a build that succeeds
leaves the table as wanted. -/
def Safe (wantUnlogged : Bool) : Ddls Built → Phase → Prop
  | .pure result, φ => result = .ok () → φ.persistence.isUnlogged = wantUnlogged
  | .unwind, _ => True
  | .stmt q k, φ => φ.Admits q ∧ (∀ e, Safe wantUnlogged (k (.error e)) φ) ∧
      ∀ r φ', φ.Leads q r φ' → Safe wantUnlogged (k (.ok r)) φ' ∧
        ∀ e, Safe wantUnlogged (k (.error e)) φ'

theorem safe_attempt {want : Bool} {q : Ddl} {failed : String → String} {k : q.Val → Ddls Built}
    {φ : Phase} (hq : φ.Admits q) (hk : ∀ r φ', φ.Leads q r φ' → Safe want (k r) φ') :
    Safe want (attempt q failed k) φ := by
  have hfail : ∀ (e : String) (φ' : Phase), Safe want (.pure (.error (storageMessage (failed e)))) φ' :=
    fun e φ' h => nomatch h
  exact ⟨hq, fun e => hfail e φ, fun r φ' hr => ⟨hk r φ' hr, fun e => hfail e φ'⟩⟩

theorem safe_alterTable {want b : Bool} {keyword : String} {fkName : Option String}
    (hkeyword : decide (keyword = "UNLOGGED") = want) (hfk : want = false → fkName = none) :
    Safe want (alterTable (if want then .unlogged else .permanent) keyword fkName) (.dropped b) := by
  apply safe_attempt (q := .setPersistence keyword) trivial
  rintro - φ' (⟨h, -, -⟩ | ⟨-, rfl⟩)
  · cases h
  · rw [hkeyword]
    cases want with
    | true => exact fun _ => rfl
    | false =>
      rw [hfk rfl]
      exact fun _ => rfl

/-- The way to an unlogged table. -/
theorem safe_setUnlogged (φ : Phase) : Safe true (setTablePersistence .unlogged) φ := by
  apply safe_attempt (q := .auditTableExists) trivial
  rintro _ _ ⟨rfl, rfl⟩
  apply safe_attempt (q := .selectForeignKey) trivial
  rintro _ _ ⟨rfl, rfl⟩
  cases φ with
  | intact =>
    apply safe_attempt (q := .dropConstraint foreignKeyName) ⟨rfl, rfl⟩
    rintro - _ rfl
    exact safe_alterTable rfl (fun h => nomatch h)
  | dropped b => exact safe_alterTable rfl (fun h => nomatch h)

/-- The way back: no foreign key is found, since an unlogged table has none. -/
theorem safe_setPermanent : Safe false (setTablePersistence .permanent) (.dropped true) := by
  apply safe_attempt (q := .auditTableExists) trivial
  rintro _ _ ⟨rfl, rfl⟩
  apply safe_attempt (q := .selectForeignKey) trivial
  rintro _ _ ⟨rfl, rfl⟩
  exact safe_alterTable rfl (fun _ => rfl)

theorem safe_build (config : DatabaseConfig) (φ : Phase) :
    Safe config.unloggedTables (build config) φ := by
  rw [build]
  split
  · exact fun h => nomatch h
  apply safe_attempt (q := .selectPersistence) trivial
  rintro _ _ ⟨rfl, rfl⟩
  simp only [TablePersistence.tryFrom_code]
  cases config.unloggedTables with
  | true =>
    cases hp : φ.persistence.isUnlogged with
    | true => exact fun _ => hp
    | false => exact safe_setUnlogged φ
  | false =>
    match φ with
    | .intact | .dropped false => exact fun _ => rfl
    | .dropped true => exact safe_setPermanent

end Phase

/-! ## Runs -/

/-- The tables are in a phase, which is intact until a foreign key is dropped, and the build under
way is safe. -/
structure Sound (os : List Deployment.Output) (d : Deployment) (φ : Phase) : Prop where
  describes : φ.Describes d.catalog
  intact_iff : φ = .intact ↔ NeverDropped os
  safe : ∀ config p, d.building = some (config, p) → φ.Safe config.unloggedTables p

theorem neverDropped_append {os : List Deployment.Output} {o : Deployment.Output} :
    NeverDropped (os ++ [o]) ↔ NeverDropped os ∧ ∀ name, o ≠ .executed (.dropConstraint name) := by
  simp only [NeverDropped, List.mem_append, List.mem_singleton, not_or, forall_and, ne_comm, ne_eq]

/-- A statement leaves the phase intact where it was, unless it drops the foreign key. -/
theorem Phase.intact_iff_of_leads {φ φ' : Phase} {q : Ddl} {r : q.Val} (hq : φ.Admits q)
    (h : φ.Leads q r φ') : φ' = .intact ↔ φ = .intact ∧ ∀ name, q ≠ .dropConstraint name := by
  cases q with
  | selectPersistence | auditTableExists | selectForeignKey => simp [h.2]
  | dropConstraint name =>
    obtain rfl : φ' = _ := h
    simp
  | setPersistence keyword =>
    obtain ⟨rfl, -, rfl⟩ | ⟨⟨b, rfl⟩, rfl⟩ := h <;> simp
  | deleteOrphans =>
    obtain rfl : φ = φ' := h
    simp
  | addConstraint name => exact h.elim

namespace Sound

variable {os : List Deployment.Output} {d d' : Deployment} {φ : Phase} {o : Deployment.Output}

/-- The tables change within their phase, and nothing is dropped. -/
theorem keep (h : Sound os d φ) (hd : φ.Describes d'.catalog)
    (ho : ∀ name, o ≠ .executed (.dropConstraint name))
    (hsafe : ∀ config p, d'.building = some (config, p) → φ.Safe config.unloggedTables p) :
    Sound (os ++ [o]) d' φ where
  describes := hd
  intact_iff := by rw [neverDropped_append, h.intact_iff, and_iff_left ho]
  safe := hsafe

theorem advance {lost : Bool} (h : Sound os d φ) (hs : d.advance lost = some (d', o)) :
    ∃ φ', Sound (os ++ [o]) d' φ' := by
  unfold Deployment.advance at hs
  split at hs
  · next config q k hbuilding =>
    -- the statement succeeds and leads to the next phase, or it fails in this one
    obtain ⟨hq, hfail, hok⟩ := h.safe _ _ hbuilding
    split at hs
    · next c r hexec =>
      obtain ⟨rfl, rfl⟩ : _ = d' ∧ _ = o := by simpa using hs
      obtain ⟨φ', hleads, hφ'⟩ := Phase.leads_of_exec h.describes hq hexec
      obtain ⟨hr, hlost⟩ := hok r φ' hleads
      refine ⟨φ', hφ', ?_, ?_⟩
      · rw [neverDropped_append, Phase.intact_iff_of_leads hq hleads, h.intact_iff]
        simp
      · rintro _ _ ⟨⟩
        cases lost with
        | true => exact hlost _
        | false => exact hr
    · next e _ =>
      split at hs
      · cases hs
      · obtain ⟨rfl, rfl⟩ : _ = d' ∧ _ = o := by simpa using hs
        refine ⟨φ, h.keep h.describes (by simp) ?_⟩
        rintro _ _ ⟨⟩
        exact hfail e
  · cases hs

theorem step {e : Deployment.Event} (h : Sound os d φ) (hs : d.step e = some (d', o)) :
    ∃ φ', Sound (os ++ [o]) d' φ' := by
  -- only a statement that takes effect moves the catalog to another phase
  cases e with
  | start config =>
    simp only [Deployment.step] at hs
    split at hs
    · cases hs
    · obtain ⟨rfl, rfl⟩ : _ = d' ∧ _ = o := by simpa using hs
      refine ⟨φ, h.keep h.describes (by simp) ?_⟩
      rintro _ _ ⟨⟩
      exact Phase.safe_build config φ
  | exec => exact h.advance hs
  | lost applied =>
    cases applied with
    | true => exact h.advance hs
    | false =>
      simp only [Deployment.step] at hs
      split at hs
      · next hbuilding =>
        obtain ⟨rfl, rfl⟩ : _ = d' ∧ _ = o := by simpa using hs
        refine ⟨φ, h.keep h.describes (by simp) ?_⟩
        rintro _ _ ⟨⟩
        exact (h.safe _ _ hbuilding).2.1 _
      · cases hs
  | finish =>
    simp only [Deployment.step] at hs
    split at hs
    · obtain ⟨rfl, rfl⟩ : _ = d' ∧ _ = o := by simpa using hs
      exact ⟨φ, h.keep h.describes (by simp) (by simp)⟩
    · obtain ⟨rfl, rfl⟩ : _ = d' ∧ _ = o := by simpa using hs
      exact ⟨φ, h.keep h.describes (by simp) (by simp)⟩
    · cases hs
  | abandon =>
    obtain ⟨rfl, rfl⟩ : _ = d' ∧ _ = o := by simpa [Deployment.step] using hs
    exact ⟨φ, h.keep h.describes (by simp) (by simp)⟩
  | insertTask id =>
    simp only [Deployment.step] at hs
    split at hs
    · next t ht =>
      split at hs
      · cases hs
      · obtain ⟨rfl, rfl⟩ : _ = d' ∧ _ = o := by simpa using hs
        exact ⟨φ, h.keep (h.describes.insertTask ht id) (by simp) h.safe⟩
    · cases hs
  | audit id =>
    simp only [Deployment.step] at hs
    split at hs
    · next t a ht ha =>
      split at hs
      · next hid =>
        obtain ⟨rfl, rfl⟩ : _ = d' ∧ _ = o := by simpa using hs
        exact ⟨φ, h.keep (h.describes.audit ht ha hid) (by simp) h.safe⟩
      · cases hs
    · cases hs
  | crash =>
    obtain ⟨rfl, rfl⟩ : _ = d' ∧ _ = o := by simpa [Deployment.step] using hs
    exact ⟨φ, h.keep h.describes.crash (by simp) h.safe⟩

end Sound

theorem Deployments.sound {os : List Deployment.Output} {d : Deployment} (h : Deployments os d) :
    ∃ φ, Sound os d φ := by
  induction h with
  | init =>
    refine ⟨.intact, ⟨_, _, rfl, rfl, rfl, rfl, ?_⟩, ?_, ?_⟩
    · exact fun _ hid => nomatch hid
    · simp [NeverDropped]
    · exact fun _ _ hbuilding => nomatch hbuilding
  | next _ _ hs ih =>
    obtain ⟨φ, hsound⟩ := ih
    exact hsound.step hs

theorem ne_built_of_advance {d d' : Deployment} {lost : Bool} {o : Deployment.Output}
    (hs : d.advance lost = some (d', o)) (config : DatabaseConfig) (result : Built) :
    o ≠ .built config result := by
  rintro rfl
  unfold Deployment.advance at hs
  repeat' split at hs
  all_goals simp at hs

/-- A build shows its result as it ends. -/
theorem building_of_built {d d' : Deployment} {e : Deployment.Event} {config : DatabaseConfig}
    {result : Built} (hs : d.step e = some (d', .built config result)) :
    d.building = some (config, .pure result) ∧ d'.catalog = d.catalog := by
  cases e with
  | finish =>
    simp only [Deployment.step] at hs
    split at hs
    · next hbuilding =>
      simp only [Option.some.injEq, Prod.mk.injEq, Deployment.Output.built.injEq] at hs
      obtain ⟨rfl, rfl, rfl⟩ := hs
      exact ⟨hbuilding, rfl⟩
    · simp at hs
    · cases hs
  | start _ | insertTask _ | audit _ | abandon | crash =>
    simp only [Deployment.step] at hs
    repeat' split at hs
    all_goals simp at hs
  | exec => exact (ne_built_of_advance hs _ _ rfl).elim
  | lost applied =>
    cases applied with
    | true => exact (ne_built_of_advance hs _ _ rfl).elim
    | false =>
      simp only [Deployment.step] at hs
      split at hs <;> simp at hs

theorem Phase.Describes.permanent {φ : Phase} {c : Catalog} (h : φ.Describes c)
    (hφ : φ.persistence.isUnlogged = false) : c.Permanent := by
  obtain ⟨t, a, ht, -, hp, -, -⟩ := h
  rw [Catalog.Permanent, ht]
  match φ with
  | .intact | .dropped false => simpa [persistence] using hp
  | .dropped true => cases hφ

theorem Phase.restored_iff_intact {φ : Phase} {c : Catalog} (h : φ.Describes c) :
    Restored c ↔ φ = .intact := by
  obtain ⟨t, a, ht, ha, hp, hfk, hrefs⟩ := h
  constructor
  · rintro ⟨-, ⟨a', ha', hne⟩, -⟩
    obtain rfl : a = a' := by simpa [ha] using ha'
    cases φ with
    | intact => rfl
    | dropped b => exact absurd hfk hne
  · rintro rfl
    refine ⟨?_, ⟨a, ha, ?_⟩, ?_⟩
    · exact Describes.permanent ⟨t, a, ht, ha, hp, hfk, hrefs⟩ rfl
    · simp [hfk, foreignKey?]
    · rintro t' a' ht' ha'
      obtain rfl : t = t' := by simpa [ht] using ht'
      obtain rfl : a = a' := by simpa [ha] using ha'
      exact hrefs

/-- A build that succeeds leaves a permanent table where one is wanted. **The foreign key of the
audit log is there, and so every row of it refers to a task, exactly where no build so far has
dropped the foreign key**; where an unlogged table is wanted, one has. -/
theorem restored_iff {os : List Deployment.Output} {config : DatabaseConfig} {d : Deployment}
    (h : Deployments (os ++ [.built config (.ok ())]) d) :
    (config.unloggedTables = false →
      d.catalog.Permanent ∧ (Restored d.catalog ↔ NeverDropped os)) ∧
    (config.unloggedTables = true → ¬ NeverDropped os) := by
  obtain ⟨d₀, e, hrun, -, hs⟩ := h.last
  obtain ⟨φ, hsound⟩ := Deployments.sound hrun
  obtain ⟨hbuilding, hcatalog⟩ := building_of_built hs
  have hpersistence := hsound.safe _ _ hbuilding rfl
  have hφ : φ.Describes d.catalog := hcatalog ▸ hsound.describes
  rw [Phase.restored_iff_intact hφ, ← hsound.intact_iff]
  constructor
  · intro hlogged
    exact ⟨hφ.permanent (hpersistence.trans hlogged), Iff.rfl⟩
  · rintro hunlogged rfl
    cases hpersistence.trans hunlogged

/-! ## Samples -/

/-- A build with all its statements. -/
def buildMoves (config : DatabaseConfig) (statements : ℕ) : List Deployment.Event :=
  .start config :: List.replicate statements .exec ++ [.finish]

theorem Deployments.of_moves {e : List Deployment.Event} {os : List Deployment.Output}
    {d : Deployment} (h : run Deployment.step .migrated e = some (d, os)) : Deployments os d :=
  Reaches.of_run .init (.of_forall (fun _ _ _ => trivial) _ _ _) h

/-- The tables stay permanent: the crash empties nothing, and the last build leaves them as the
migrations have made them. -/
theorem foreign_key_kept :
    ∃ os c, Deployments (os ++ [.built ⟨false, false⟩ (.ok ())]) ⟨c, none⟩ ∧
      c.auditLog.map AuditTable.rows = some [⟨3⟩] ∧ Restored c := by
  have hrun : Deployments ([.silent, .silent, .silent, .silent, .executed .selectPersistence] ++
      [.built ⟨false, false⟩ (.ok ())])
      ⟨⟨some ⟨.permanent, [⟨3⟩]⟩, some ⟨[foreignKeyName], [⟨3⟩]⟩⟩, none⟩ :=
    Deployments.of_moves
      (e := [.insertTask ⟨3⟩, .audit ⟨3⟩, .crash] ++ buildMoves ⟨false, false⟩ 1) rfl
  exact ⟨_, _, hrun, rfl, ((restored_iff hrun).1 rfl).2.mpr (by simp [NeverDropped])⟩

/-- The statements of a build of an unlogged table, a crash, and the statements of a build of a
logged one. -/
def roundTrip : List Deployment.Output :=
  [.silent, .silent,
    .silent, .executed .selectPersistence, .executed .auditTableExists, .executed .selectForeignKey,
    .executed (.dropConstraint foreignKeyName), .executed (.setPersistence "UNLOGGED"),
    .built ⟨true, false⟩ (.ok ()),
    .silent,
    .silent, .executed .selectPersistence, .executed .auditTableExists, .executed .selectForeignKey,
    .executed (.setPersistence "LOGGED")]

/-- **A round trip loses the foreign key**, and after a crash on the way an audit row that refers
to no task is left. -/
theorem foreign_key_lost :
    ∃ c : Catalog, Deployments (roundTrip ++ [.built ⟨false, false⟩ (.ok ())]) ⟨c, none⟩ ∧
      c.Permanent ∧ c.tasks.map TasksTable.rows = some [] ∧
      c.auditLog.map AuditTable.foreignKeys = some [] ∧
      c.auditLog.map AuditTable.rows = some [⟨3⟩] ∧ ¬ Restored c := by
  refine ⟨⟨some ⟨.permanent, []⟩, some ⟨[], [⟨3⟩]⟩⟩, ?_, rfl, rfl, rfl, rfl, ?_⟩
  · exact Deployments.of_moves (e := [.insertTask ⟨3⟩, .audit ⟨3⟩] ++ buildMoves ⟨true, false⟩ 5 ++
      [.crash] ++ buildMoves ⟨false, false⟩ 4) rfl
  · rintro ⟨-, ⟨a, ha, hne⟩, -⟩
    cases ha
    exact hne rfl

end IronDefer
