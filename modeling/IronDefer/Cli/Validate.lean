import IronDefer.Api.Persistence
import IronDefer.Application.Config

/-!
# Validating a configuration

`iron-defer config validate` loads the configuration and checks the part about the workers. `serve`
makes a pool of connections from it, whose size has a ceiling, and then builds an engine, which
checks the part about the workers and the part about the database. Loading the configuration,
connecting to the database and preparing it are parameters.

## Main definitions

* `AppConfig`: the configuration, as far as it is checked or a pool is made of it
* `runValidate`: the verdict of `config validate`
* `createPool`, `buildEngine`, `runServe`: the way of `serve` to an engine

## Main results

* `runValidate_eq_ok_iff`, `runServe_eq_ok_iff`: what each of the two asks for
* `validate_predicts_iff`: **when both come to the same verdict**
-/

namespace IronDefer

/-- The database section: what a build reads, and what a pool is made of. -/
structure DatabaseSection extends DatabaseConfig where
  url : String
  maxConnections : UInt32
  testBeforeAcquire : Bool

/-- The configuration. -/
structure AppConfig where
  database : DatabaseSection
  worker : WorkerConfig

/-! ## `config validate` -/

/-- What the command can fail for. -/
inductive ValidateError where
  | loadFailed (e : String)
  | workerInvalid (e : String)
  deriving DecidableEq

/-- `run_validate`, of what has been loaded. -/
def runValidate (loaded : Except String AppConfig) : Except ValidateError Unit := do
  let appConfig ← loaded.mapError .loadFailed
  appConfig.worker.validate.mapError .workerInvalid

/-! ## `serve` -/

def defaultMaxConnections : UInt32 := 10

def maxPoolConnections : UInt32 := 100

/-- The options of a pool. -/
structure PoolOptions where
  maxConnections : UInt32
  minConnections : UInt32
  acquireTimeout : Duration
  idleTimeout : Option Duration
  maxLifetime : Option Duration
  testBeforeAcquire : Bool

def recommendedPoolOptions : PoolOptions where
  maxConnections := defaultMaxConnections
  minConnections := 0
  acquireTimeout := 5000000000
  idleTimeout := some 300000000000
  maxLifetime := some 1800000000000
  testBeforeAcquire := true

section Serve

variable {Pool : Type} (connect : PoolOptions → String → Except RepoError Pool)
  (prepare : Pool → DatabaseConfig → Except RepoError Unit)

/-- `create_pool`. -/
def createPool (config : DatabaseSection) : Except RepoError Pool :=
  let maxConnections :=
    if config.maxConnections = 0 then defaultMaxConnections else config.maxConnections
  if maxPoolConnections < maxConnections then
    .error (.storage (.message ("configured pool size (" ++ toString maxConnections ++
      ") exceeds ceiling (" ++ toString maxPoolConnections ++ ")")))
  else
    connect { recommendedPoolOptions with
      maxConnections, testBeforeAcquire := config.testBeforeAcquire } config.url

/-- `IronDeferBuilder::build`, on a pool. -/
def buildEngine (worker : WorkerConfig) (database : DatabaseConfig) (pool : Pool) :
    Except RepoError Unit := do
  worker.validate.mapError fun reason => .invalidPayload (.validation reason)
  database.validate.mapError fun reason => .invalidPayload (.validation reason)
  prepare pool database

/-- `run_serve`, up to the engine. -/
def runServe (appConfig : AppConfig) : Except RepoError Unit := do
  let pool ← createPool connect appConfig.database
  buildEngine prepare appConfig.worker appConfig.database.toDatabaseConfig pool

end Serve

/-! ## The verdicts -/

theorem DatabaseConfig.validate_eq_ok_iff {config : DatabaseConfig} :
    config.validate = .ok () ↔ ¬ (config.unloggedTables = true ∧ config.auditLog = true) := by
  unfold DatabaseConfig.validate
  rw [← Bool.and_eq_true_iff]
  split
  next h => exact iff_of_false (fun h' => nomatch h') fun h' => h' h
  next h => exact iff_of_true rfl h

theorem mapError_eq_ok_iff {ε ε' α : Type} {f : ε → ε'} {x : Except ε α} {a : α} :
    x.mapError f = .ok a ↔ x = .ok a := by
  cases x with
  | error e => exact iff_of_false (fun h => nomatch h) fun h => nomatch h
  | ok b => exact ⟨fun h => by cases h; rfl, fun h => by cases h; rfl⟩

theorem bind_eq_ok_iff {ε α β : Type} {x : Except ε α} {f : α → Except ε β} {b : β} :
    x >>= f = .ok b ↔ ∃ a, x = .ok a ∧ f a = .ok b := by
  cases x with
  | error e => exact iff_of_false (fun h => nomatch h) fun ⟨_, h, _⟩ => nomatch h
  | ok a => exact ⟨fun h => ⟨a, rfl, h⟩, fun ⟨_, h, h'⟩ => by cases h; exact h'⟩

/-- A check goes on where it has succeeded. -/
theorem check_bind_eq_ok_iff {ε β : Type} {x : Except ε Unit} {f : Unit → Except ε β} {b : β} :
    x >>= f = .ok b ↔ x = .ok () ∧ f () = .ok b := by
  rw [bind_eq_ok_iff]
  exact ⟨fun ⟨_, h⟩ => h, fun h => ⟨(), h⟩⟩

theorem runValidate_eq_ok_iff {appConfig : AppConfig} :
    runValidate (.ok appConfig) = .ok () ↔ appConfig.worker.Valid := by
  rw [← WorkerConfig.validate_eq_ok_iff]
  exact mapError_eq_ok_iff

section Reachable

variable {Pool : Type} {connect : PoolOptions → String → Except RepoError Pool}
  {prepare : Pool → DatabaseConfig → Except RepoError Unit}

/-- A pool that is asked for no size has the default one, which is below the ceiling. -/
theorem createPool_eq_ok_iff (hconnect : ∀ options url, ∃ pool, connect options url = .ok pool)
    {config : DatabaseSection} :
    (∃ pool, createPool connect config = .ok pool) ↔
      config.maxConnections ≤ maxPoolConnections := by
  unfold createPool
  by_cases hzero : config.maxConnections = 0
  · rw [if_pos hzero, if_neg (by decide), hzero]
    exact iff_of_true (hconnect _ _) (by decide)
  · rw [if_neg hzero]
    dsimp only
    split
    next hlt => exact iff_of_false (fun ⟨_, h⟩ => nomatch h) (UInt32.not_le.mpr hlt)
    next hle => exact iff_of_true (hconnect _ _) (UInt32.not_lt.mp hle)

/-- What `serve` asks for, where the database can be reached. -/
theorem runServe_eq_ok_iff (hconnect : ∀ options url, ∃ pool, connect options url = .ok pool)
    (hprepare : ∀ pool config, prepare pool config = .ok ()) {appConfig : AppConfig} :
    runServe connect prepare appConfig = .ok () ↔
      appConfig.database.maxConnections ≤ maxPoolConnections ∧ appConfig.worker.Valid ∧
        ¬ (appConfig.database.unloggedTables = true ∧ appConfig.database.auditLog = true) := by
  have hbuild : ∀ pool, buildEngine prepare appConfig.worker
      appConfig.database.toDatabaseConfig pool = .ok () ↔ appConfig.worker.Valid ∧
        ¬ (appConfig.database.unloggedTables = true ∧ appConfig.database.auditLog = true) := by
    intro pool
    unfold buildEngine
    rw [check_bind_eq_ok_iff, check_bind_eq_ok_iff, mapError_eq_ok_iff, mapError_eq_ok_iff,
      WorkerConfig.validate_eq_ok_iff, DatabaseConfig.validate_eq_ok_iff]
    exact and_congr_right fun _ => and_iff_left (hprepare pool _)
  unfold runServe
  rw [bind_eq_ok_iff, ← createPool_eq_ok_iff hconnect, ← exists_and_right]
  exact exists_congr fun pool => and_congr_right fun _ => hbuild pool

/-- **`config validate` predicts whether `serve` starts**, where the database can be reached, exactly
for a configuration whose part about the workers is not valid, or whose pool is within the ceiling
and whose tables are not both unlogged and audited. -/
theorem validate_predicts_iff (hconnect : ∀ options url, ∃ pool, connect options url = .ok pool)
    (hprepare : ∀ pool config, prepare pool config = .ok ()) (appConfig : AppConfig) :
    (runValidate (.ok appConfig) = .ok () ↔ runServe connect prepare appConfig = .ok ()) ↔
      (appConfig.worker.Valid → appConfig.database.maxConnections ≤ maxPoolConnections ∧
        ¬ (appConfig.database.unloggedTables = true ∧ appConfig.database.auditLog = true)) := by
  rw [runValidate_eq_ok_iff, runServe_eq_ok_iff hconnect hprepare]
  tauto

end Reachable

/-- The default settings, with a pool of a given size, whose tables are audited, and unlogged or
not. -/
def auditedConfig (maxConnections : UInt32) (unloggedTables : Bool) : AppConfig where
  database := {
    unloggedTables
    auditLog := true
    url := "postgres://localhost/app"
    maxConnections
    testBeforeAcquire := true }
  worker := .default

/-- A database that is always reached, and prepared. -/
def connected (_ : PoolOptions) (_ : String) : Except RepoError Unit := .ok ()

def prepared (_ : Unit) (_ : DatabaseConfig) : Except RepoError Unit := .ok ()

/-- A pool of the default size, and tables that are not unlogged: both accept. -/
theorem audited_predicted :
    runValidate (.ok (auditedConfig 0 false)) = .ok () ↔
      runServe connected prepared (auditedConfig 0 false) = .ok () :=
  (validate_predicts_iff (fun _ _ => ⟨(), rfl⟩) (fun _ _ => rfl) (auditedConfig 0 false)).mpr
    fun _ => by decide

/-- Audited tables that are unlogged, and a pool beyond the ceiling: `config validate` accepts them,
and `serve` does not start. -/
theorem invalid_database_accepted :
    ¬ (runValidate (.ok (auditedConfig 0 true)) = .ok () ↔
      runServe connected prepared (auditedConfig 0 true) = .ok ()) ∧
    ¬ (runValidate (.ok (auditedConfig 101 false)) = .ok () ↔
      runServe connected prepared (auditedConfig 101 false) = .ok ()) := by
  have hvalid : WorkerConfig.default.Valid :=
    WorkerConfig.validate_eq_ok_iff.mp WorkerConfig.validate_default
  have hserves : ∀ appConfig, runServe connected prepared appConfig = .ok () ↔ _ := fun _ =>
    runServe_eq_ok_iff (fun _ _ => ⟨(), rfl⟩) fun _ _ => rfl
  constructor
  · intro h
    have hserve := (hserves _).mp (h.mp (runValidate_eq_ok_iff.mpr hvalid))
    exact hserve.2.2 ⟨rfl, rfl⟩
  · intro h
    have hserve := (hserves _).mp (h.mp (runValidate_eq_ok_iff.mpr hvalid))
    exact absurd hserve.1 (by decide)

end IronDefer
