import IronDefer.Domain.Values
import Mathlib.Algebra.Group.Nat.Defs

/-!
# Configuration of a worker pool

The settings an engine passes to its worker pool and its sweeper, and the check it makes of them
when it is built.

## Main definitions

* `WorkerConfig`: the settings
* `WorkerConfig.validate`: the check, which reports the first setting that fails
* `WorkerConfig.default`: the defaults

## Main results

* `WorkerConfig.validate_default`: the defaults pass the check
* `WorkerConfig.validate_eq_ok_iff`: what the check asks for
-/

namespace IronDefer

/-- A number of nanoseconds below `10 ^ digits` as decimal places, without trailing zeros. -/
def decimalPlaces (digits value : ℕ) : String :=
  let shown := (List.range digits).map fun i => Nat.digitChar (value / 10 ^ (digits - 1 - i) % 10)
  let shown := (shown.reverse.dropWhile (· = '0')).reverse
  if shown.isEmpty then "" else "." ++ String.ofList shown

/-- The debug text of a duration. -/
def debugDuration (d : Duration) : String :=
  if 1000000000 ≤ d then toString (d / 1000000000) ++ decimalPlaces 9 (d % 1000000000) ++ "s"
  else if 1000000 ≤ d then toString (d / 1000000) ++ decimalPlaces 6 (d % 1000000) ++ "ms"
  else if 1000 ≤ d then toString (d / 1000) ++ decimalPlaces 3 (d % 1000) ++ "µs"
  else toString d ++ "ns"

example : debugDuration 1500000000 = "1.5s" := by decide
example : debugDuration 10000000 = "10ms" := by decide

/-- Worker pool configuration. -/
structure WorkerConfig where
  concurrency : ℕ
  leaseDuration : Duration
  baseDelay : Duration
  maxDelay : Duration
  pollInterval : Duration
  sweeperInterval : Duration
  maxClaimBackoff : Duration
  shutdownTimeout : Duration
  idempotencyKeyRetention : Duration
  suspendTimeout : Duration
  region : Option String
  deriving DecidableEq, Repr

/-- Minimum allowed value for duration fields: 10 ms. -/
def minDuration : Duration := 10000000

namespace WorkerConfig

/-- A duration field below the minimum, by its name. -/
def tooShort (name : String) (value : Duration) : Option String :=
  if value < minDuration then
    some (name ++ " must be >= " ++ debugDuration minDuration ++ ", got " ++ debugDuration value)
  else none

/-- A duration field that is zero, by its name. -/
def isZero (name : String) (value : Duration) : Option String :=
  if value = 0 then some (name ++ " must be > 0") else none

/-- The checks in their order, each with its error where it fails. -/
def checks (c : WorkerConfig) : List (Option String) :=
  [if c.concurrency = 0 then some "concurrency must be >= 1" else none,
    tooShort "poll_interval" c.pollInterval,
    tooShort "sweeper_interval" c.sweeperInterval,
    tooShort "lease_duration" c.leaseDuration,
    isZero "base_delay" c.baseDelay,
    isZero "max_delay" c.maxDelay,
    if c.maxDelay < c.baseDelay then
      some ("max_delay (" ++ debugDuration c.maxDelay ++ ") must be >= base_delay (" ++
        debugDuration c.baseDelay ++ ")")
    else none,
    isZero "max_claim_backoff" c.maxClaimBackoff,
    isZero "shutdown_timeout" c.shutdownTimeout,
    if c.idempotencyKeyRetention < 60000000000 then
      some ("idempotency_key_retention must be >= 1 minute, got " ++
        debugDuration c.idempotencyKeyRetention)
    else none,
    tooShort "suspend_timeout" c.suspendTimeout]

def validate (c : WorkerConfig) : Except String Unit :=
  match c.checks.findSome? id with
  | some reason => .error reason
  | none => .ok ()

protected def default : WorkerConfig where
  concurrency := 4
  leaseDuration := 300000000000
  baseDelay := 5000000000
  maxDelay := 1800000000000
  pollInterval := 500000000
  sweeperInterval := 60000000000
  maxClaimBackoff := 30000000000
  shutdownTimeout := 30000000000
  idempotencyKeyRetention := 86400000000000
  suspendTimeout := 86400000000000
  region := none

theorem validate_default : WorkerConfig.default.validate = .ok () := by decide

theorem tooShort_eq_none {name : String} {value : Duration} :
    tooShort name value = none ↔ minDuration ≤ value := by
  unfold tooShort
  split
  next h => exact ⟨(fun hn => nomatch hn), fun hle => absurd h (Nat.not_lt.mpr hle)⟩
  next h => exact ⟨fun _ => Nat.not_lt.mp h, fun _ => rfl⟩

theorem isZero_eq_none {name : String} {value : Duration} :
    isZero name value = none ↔ 0 < value := by
  unfold isZero
  split
  next h => exact ⟨(fun hn => nomatch hn), fun hlt => absurd h (Nat.ne_of_gt hlt)⟩
  next h => exact ⟨fun _ => Nat.pos_of_ne_zero h, fun _ => rfl⟩

/-- What the check asks for. -/
structure Valid (c : WorkerConfig) : Prop where
  concurrency : 0 < c.concurrency
  pollInterval : minDuration ≤ c.pollInterval
  sweeperInterval : minDuration ≤ c.sweeperInterval
  leaseDuration : minDuration ≤ c.leaseDuration
  baseDelay : 0 < c.baseDelay
  maxDelay : c.baseDelay ≤ c.maxDelay
  maxClaimBackoff : 0 < c.maxClaimBackoff
  shutdownTimeout : 0 < c.shutdownTimeout
  idempotencyKeyRetention : 60000000000 ≤ c.idempotencyKeyRetention
  suspendTimeout : minDuration ≤ c.suspendTimeout

theorem validate_eq_ok_iff {c : WorkerConfig} : c.validate = .ok () ↔ c.Valid := by
  -- the configuration is valid where every check finds nothing
  have hall : c.validate = .ok () ↔ ∀ x ∈ c.checks, x = none := by
    rw [validate]
    split
    next reason h =>
      obtain ⟨x, hx, hreason⟩ := List.exists_of_findSome?_eq_some h
      obtain rfl : x = some reason := hreason
      exact ⟨(fun hok => nomatch hok), (fun hall => nomatch hall _ hx)⟩
    next h => exact ⟨fun _ => List.findSome?_eq_none_iff.mp h, fun _ => rfl⟩
  rw [hall]
  simp only [checks, List.forall_mem_cons, List.not_mem_nil, false_imp_iff, implies_true,
    tooShort_eq_none, isZero_eq_none]
  constructor
  · rintro ⟨h₁, h₂, h₃, h₄, h₅, -, h₇, h₈, h₉, h₁₀, h₁₁, -⟩
    refine ⟨?_, h₂, h₃, h₄, h₅, ?_, h₈, h₉, ?_, h₁₁⟩
    · by_contra h
      simp [Nat.eq_zero_of_not_pos h] at h₁
    · by_contra h
      simp [Nat.not_le.mp h] at h₇
    · by_contra h
      simp [Nat.not_le.mp h] at h₁₀
  · intro h
    refine ⟨?_, h.2, h.3, h.4, h.5, ?_, ?_, h.7, h.8, ?_, h.10, trivial⟩
    · rw [if_neg (Nat.pos_iff_ne_zero.mp h.concurrency)]
    · exact Nat.lt_of_lt_of_le h.baseDelay h.maxDelay
    · rw [if_neg (Nat.not_lt.mpr h.maxDelay)]
    · rw [if_neg (Nat.not_lt.mpr h.idempotencyKeyRetention)]

end WorkerConfig

end IronDefer
