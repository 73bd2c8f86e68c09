import IronDefer.Application.Worker
import IronDefer.Infrastructure.Serving
import Mathlib.Tactic.Linarith
import Mathlib.Tactic.NormNum

/-!
# The retry schedule

When the next attempt of a failed task is due. The delay doubles with every attempt up to a cap, and
a random factor spreads it by a quarter to both sides. The cap is applied after the power and the
product have been computed, so both can leave the range of a double before; the interval and the
instant can leave theirs. Every step is rounded, to a double or to a microsecond, and rounding may
lead out of the spread. The delay grows with the random value, so that its ends decide.

## Main definitions

* `retryCap`, `retryCapF64`: the delay before the spread, exactly and as a double
* `spread`: the random factor
* `earliest`, `latest`: the ends of the spread, in microseconds
* `RetryFits`: all values of the schedule are in range, and rounding does not leave the spread
* `Rescheduled`: what a failure makes of a row
* `FailsOnSchedule`: what a failure does on a store

## Main results

* `retryCap_mono`, `retryCap_le`: the delay grows with the attempts, up to the cap
* `spread_all`, `spread_allTop`: the ends of the spread are drawn
* `retryDelay_eq_ok_iff`: when the delay can be computed
* `retryFits_of_whole`: delays of whole seconds fit
* `served_fail`: the ways a failure can end
* `retry_schedule_iff`: **when a failed task leaves running as scheduled**
-/

namespace IronDefer

open RowStore Rounding

/-! ## The delay -/

/-- A span of time in seconds. -/
def Duration.toSecs (d : Duration) : ℚ := (d : ℚ) / 1000000000

/-- The delay before the spread: the base delay doubled with every attempt after the first, up to
the maximum. -/
def retryCap (config : WorkerConfig) (attempts : Int) : ℚ :=
  min (Duration.toSecs config.baseDelay * 2 ^ (attempts - 1)) (Duration.toSecs config.maxDelay)

/-- The same of delays in doubles. -/
def retryCapF64 (config : WorkerConfig) (attempts : Int) : ℚ :=
  min (Duration.asSecsF64 config.baseDelay * 2 ^ (attempts - 1))
    (Duration.asSecsF64 config.maxDelay)

/-- The factor that spreads the delay. -/
def spread (e : Env) : ℚ := binary64.round (3 / 4 + binary64.round (e.random * (1 / 2)))

/-- What the schedule adds to the clock at least, in microseconds. -/
def earliest (config : WorkerConfig) (attempts : Int) : Int :=
  micros (binary64.round (retryCapF64 config attempts * (3 / 4)))

/-- What the schedule adds to the clock at most, in microseconds. -/
def latest (config : WorkerConfig) (attempts : Int) : Int :=
  micros (binary64.round (retryCapF64 config attempts * (5 / 4)))

theorem topBits_lt : 4503599627370495 < 2 ^ 52 := by norm_num

/-- A statement that finds every row, with `random()` at its greatest value. -/
def Env.allTop : Env := ⟨fun _ => true, 4503599627370495, topBits_lt⟩

section Cap

variable {config : WorkerConfig} {attempts attempts' : Int}

/-- The delay never falls from one attempt to a later one. -/
theorem retryCap_mono (h : attempts ≤ attempts') :
    retryCap config attempts ≤ retryCap config attempts' := by
  refine min_le_min_right _ (mul_le_mul_of_nonneg_left ?_ ?_)
  · exact zpow_le_zpow_right₀ (by norm_num) (by omega)
  · unfold Duration.toSecs
    positivity

theorem retryCap_le : retryCap config attempts ≤ Duration.toSecs config.maxDelay := min_le_right _ _

/-- The delay is at least a nanosecond. -/
theorem le_retryCapF64 (hvalid : config.Valid) (h : 1 ≤ attempts) :
    2 ^ (-30 : ℤ) ≤ retryCapF64 config attempts := by
  have hbase := Duration.le_asSecsF64 hvalid.baseDelay
  have hmax := Duration.le_asSecsF64 (Nat.lt_of_lt_of_le hvalid.baseDelay hvalid.maxDelay)
  have hpow : (1 : ℚ) ≤ 2 ^ (attempts - 1) := one_le_zpow₀ (by norm_num) (by omega)
  exact le_min (hbase.trans (le_mul_of_one_le_right Duration.asSecsF64_nonneg hpow)) hmax

theorem retryCapF64_pos (hvalid : config.Valid) (h : 1 ≤ attempts) :
    0 < retryCapF64 config attempts := lt_of_lt_of_le (by positivity) (le_retryCapF64 hvalid h)

end Cap

/-! ## The spread -/

section Spread

variable {config : WorkerConfig} {n : Int} {e : Env}

/-- Halving a random value is exact. -/
theorem round_half : binary64.round (e.random * (1 / 2)) = e.random * (1 / 2) := by
  refine Format.round_eq_self ⟨e.randomBits.val, -53, ?_, by decide, ?_⟩
    (mul_nonneg e.random_nonneg (by norm_num))
  · rw [Nat.abs_cast]
    have hlt : e.randomBits.val < 2 ^ 53 := e.randomBits.isLt.trans (by norm_num)
    exact_mod_cast hlt
  · rw [Env.random]
    push_cast
    norm_num
    ring

theorem le_spread : 3 / 4 ≤ spread e := by
  have hrep : binary64.Represents (3 / 4) := ⟨3, -2, by decide, by decide, by norm_num⟩
  refine Format.le_round hrep (by norm_num) ?_
  rw [round_half]
  linarith [e.random_nonneg]

theorem spread_le : spread e ≤ 5 / 4 := by
  have hrep : binary64.Represents (5 / 4) := ⟨5, -2, by decide, by decide, by norm_num⟩
  have hnonneg := e.random_nonneg
  have hle := e.random_le
  refine Format.round_le ?_ ?_ hrep
  · rw [round_half]
    linarith
  · rw [round_half]
    linarith

/-- The least random value gives three quarters. -/
theorem spread_all : spread .all = 3 / 4 := by decide +kernel

/-- The greatest random value gives five quarters, since the tie goes to the even number. -/
theorem spread_allTop : spread .allTop = 5 / 4 := by decide +kernel

/-- **The delay lies between the ends of the spread.** -/
theorem earliest_le (hcap : 0 < retryCapF64 config n) :
    earliest config n ≤ micros (binary64.round (retryCapF64 config n * spread e)) := by
  have hle := mul_le_mul_of_nonneg_left (le_spread (e := e)) hcap.le
  exact micros_mono (Format.round_nonneg (by positivity)) (Format.round_mono (by positivity) hle)

theorem le_latest (hcap : 0 < retryCapF64 config n) :
    micros (binary64.round (retryCapF64 config n * spread e)) ≤ latest config n := by
  have hspread : 0 ≤ spread e := le_trans (by norm_num) le_spread
  have hle := mul_le_mul_of_nonneg_left (spread_le (e := e)) hcap.le
  exact micros_mono (Format.round_nonneg (by positivity)) (Format.round_mono (by positivity) hle)

end Spread

/-! ## Computing the delay -/

/-- All values of the schedule are in range, and rounding does not leave the spread. -/
structure RetryFits (b : Began) (config : WorkerConfig) (attempts : Int) : Prop where
  power : attempts ≤ 1024
  product : Duration.asSecsF64 config.baseDelay * 2 ^ (attempts - 1) < 2 ^ 1024
  low : 3 / 4 * (retryCap config attempts * 1000000) ≤ earliest config attempts
  high : latest config attempts ≤ 5 / 4 * (retryCap config attempts * 1000000)
  interval : latest config attempts ≤ 9223372036854775807
  begins : -211813488000000000 ≤ b.now + earliest config attempts
  ends : b.now + latest config attempts ≤ maxTimestamp

section Delay

variable {config : WorkerConfig} {attempts : I32} {b : Began} {e : Env} {d : ℚ}

theorem int4Add_neg_one (h : 1 ≤ attempts.val) :
    ∃ exponent, int4Add attempts (-1) = .ok exponent ∧ exponent.val = attempts.val - 1 := by
  have hupper := attempts.upper
  have hsome : (I32.ofInt? (attempts.val + -1)).isSome := I32.ofInt?_isSome.mpr (by omega)
  obtain ⟨exponent, he⟩ := Option.isSome_iff_exists.mp hsome
  refine ⟨exponent, ?_, I32.val_of_ofInt? he⟩
  rw [int4Add, he]

/-- Doubling a delay is exact, as long as it is in range. -/
theorem float8_backoff (hvalid : config.Valid) {n : Int} (hn : 0 ≤ n) {y : ℚ} :
    float8 (Duration.asSecsF64 config.baseDelay * 2 ^ n) = .ok y ↔
      y = Duration.asSecsF64 config.baseDelay * 2 ^ n ∧
        Duration.asSecsF64 config.baseDelay * 2 ^ n < 2 ^ 1024 := by
  obtain ⟨k, rfl⟩ := Int.eq_ofNat_of_zero_le hn
  have hbase := lt_of_lt_of_le (by positivity) (Duration.le_asSecsF64 hvalid.baseDelay)
  have hrep : binary64.Represents (Duration.asSecsF64 config.baseDelay * 2 ^ (k : ℤ)) := by
    rw [zpow_natCast]
    exact Duration.represents_asSecsF64.mul_two_pow k
  have hround := Format.round_eq_self hrep (by positivity)
  rw [float8_eq_ok_iff (by positivity) (fun _ => hround.symm ▸ by positivity), hround]

/-- **When the delay can be computed**, and what it is. -/
theorem retryDelay_eq_ok_iff (hvalid : config.Valid) (h : 1 ≤ attempts.val) :
    Update.retryDelay e attempts (Duration.asSecsF64 config.baseDelay)
        (Duration.asSecsF64 config.maxDelay) = .ok d ↔
      attempts.val ≤ 1024 ∧
        Duration.asSecsF64 config.baseDelay * 2 ^ (attempts.val - 1) < 2 ^ 1024 ∧
        d = binary64.round (retryCapF64 config attempts.val * spread e) ∧ d < 2 ^ 1024 := by
  obtain ⟨exponent, hexp, hval⟩ := int4Add_neg_one h
  have hbackoff := fun y => float8_backoff hvalid (y := y) (by omega : 0 ≤ attempts.val - 1)
  -- neither half of the random value nor the factor is an underflow or an overflow
  have hhalf : float8 (e.random * (1 / 2)) = .ok (e.random * (1 / 2)) := by
    have hnonneg : 0 ≤ e.random * (1 / 2) := mul_nonneg e.random_nonneg (by norm_num)
    refine (float8_eq_ok_iff hnonneg fun hne => ?_).mpr ⟨round_half.symm, ?_⟩
    · rw [round_half]
      exact lt_of_le_of_ne hnonneg hne.symm
    · rw [round_half]
      exact lt_of_lt_of_le (by linarith [e.random_le] : _ < (1 : ℚ)) (one_le_pow₀ (by norm_num))
  have hspread : float8 (3 / 4 + e.random * (1 / 2)) = .ok (spread e) := by
    have hle := le_spread (e := e)
    have hle' := spread_le (e := e)
    rw [spread, round_half] at hle hle'
    refine (float8_eq_ok_iff (by linarith [e.random_nonneg]) fun _ => by linarith).mpr ⟨?_, ?_⟩
    · rw [spread, round_half]
    · refine hle'.trans_lt (lt_of_lt_of_le (by norm_num : _ < (2 : ℚ) ^ 1) ?_)
      exact pow_le_pow_right₀ (by norm_num) (by norm_num)
  -- a nanosecond is far from an underflow
  have hlow : (2 : ℚ) ^ (-1074 : ℤ) ≤ retryCapF64 config attempts.val * spread e := by
    have hcap := le_retryCapF64 hvalid h
    calc (2 : ℚ) ^ (-1074 : ℤ) ≤ 2 ^ (-31 : ℤ) := zpow_le_zpow_right₀ (by norm_num) (by norm_num)
      _ ≤ 2 ^ (-30 : ℤ) * (3 / 4) := by norm_num
      _ ≤ _ := mul_le_mul hcap le_spread (by norm_num) (hcap.trans' (by positivity))
  have hdelay := float8_eq_ok_iff (y := d) (le_trans (by positivity) hlow)
    fun _ => Format.round_pos (F := binary64) hlow
  unfold Update.retryDelay
  simp only [hexp, hhalf, hspread, hval, bind, Except.bind]
  -- the cap comes too late for a power, or a product, that is out of range
  by_cases hpower : attempts.val ≤ 1024
  · have hfactor : power2 (attempts.val - 1) = .ok (2 ^ (attempts.val - 1)) := if_neg (by omega)
    rw [hfactor]
    by_cases hproduct : Duration.asSecsF64 config.baseDelay * 2 ^ (attempts.val - 1) < 2 ^ 1024
    · simp only [(hbackoff _).mpr ⟨rfl, hproduct⟩, hpower, hproduct, true_and]
      refine Iff.trans hdelay (and_congr_right fun heq => ?_)
      rw [heq]
    · refine iff_of_false (fun hd => ?_) fun hd => hproduct hd.2.1
      cases hy : float8 (Duration.asSecsF64 config.baseDelay * 2 ^ (attempts.val - 1)) with
      | ok y => exact hproduct ((hbackoff y).mp hy).2
      | error err =>
        simp only [hy] at hd
        cases hd
  · have hfactor : power2 (attempts.val - 1) = .error .floatOutOfRange := if_pos (by omega)
    rw [hfactor]
    exact iff_of_false (fun hd => by cases hd) fun hd => hpower hd.1

end Delay

/-! ## Delays of whole seconds -/

section Whole

variable {config : WorkerConfig} {base max : ℕ} {n : Int} {b : Began}

/-- A quarter of whole seconds is a double, and a whole number of microseconds. -/
theorem micros_quarters {c q : ℕ} (hq : q ≤ 5) (hc : c < 2 ^ 32) :
    micros (binary64.round (c * (q / 4))) = 250000 * q * c := by
  have hsmall : 250000 * q * c < 2 ^ 53 := by
    calc 250000 * q * c ≤ 250000 * 5 * 2 ^ 32 :=
          Nat.mul_le_mul (Nat.mul_le_mul_left _ hq) hc.le
      _ < 2 ^ 53 := by norm_num
  have hrep : binary64.Represents ((c : ℚ) * (q / 4)) := by
    refine ⟨q * c, -2, ?_, by decide, ?_⟩
    · rw [abs_of_nonneg (by positivity)]
      have hlt : q * c < 2 ^ 53 := lt_of_le_of_lt (by nlinarith [Nat.zero_le (q * c)]) hsmall
      exact_mod_cast hlt
    · push_cast
      norm_num
      ring
  have hwhole : (c : ℚ) * (q / 4) * 1000000 = (250000 * q * c : ℕ) := by
    push_cast
    ring
  unfold micros
  rw [Format.round_eq_self hrep (by positivity), hwhole,
    Format.round_eq_self (Format.represents_natCast hsmall (by decide)) (by positivity)]
  have hcast : ((250000 * q * c : ℕ) : ℚ) = ((250000 * q * c : Int) : ℚ) := by push_cast; rfl
  rw [hcast, rint_intCast]

/-- The delay of whole seconds is one of whole seconds, exactly and as a double. -/
theorem exists_retryCap_of_whole (hbase : config.baseDelay = base * 1000000000)
    (hmax : config.maxDelay = max * 1000000000) (hle : base ≤ max) (hshort : max < 2 ^ 32)
    (hn : 1 ≤ n) : ∃ c : ℕ, c < 2 ^ 32 ∧ retryCap config n = c ∧ retryCapF64 config n = c := by
  obtain ⟨k, hk⟩ := Int.eq_ofNat_of_zero_le (by omega : 0 ≤ n - 1)
  have hsecs : ∀ s : ℕ, Duration.toSecs (s * 1000000000) = s := fun s => by
    unfold Duration.toSecs
    push_cast
    field_simp
  have hcap : min ((base : ℚ) * 2 ^ (n - 1)) (max : ℚ) = (min (base * 2 ^ k) max : ℕ) := by
    rw [hk, zpow_natCast]
    push_cast
    rfl
  refine ⟨min (base * 2 ^ k) max, (Nat.min_le_right _ _).trans_lt hshort, ?_, ?_⟩
  · rw [retryCap, hbase, hmax, hsecs, hsecs, hcap]
  · rw [retryCapF64, hbase, hmax, Duration.asSecsF64_of_whole (by omega),
      Duration.asSecsF64_of_whole (by omega), hcap]

/-- **Delays of whole seconds fit**, up to a century and the 960th attempt, while the clock reads a
time within 250000 years. -/
theorem retryFits_of_whole (hbase : config.baseDelay = base * 1000000000)
    (hmax : config.maxDelay = max * 1000000000) (hle : base ≤ max) (hshort : max < 2 ^ 32)
    (hn : 1 ≤ n) (hn' : n ≤ 960) (hb : -211813488000000000 ≤ b.now)
    (hb' : b.now ≤ 8000000000000000000) : RetryFits b config n := by
  obtain ⟨c, hc, hexact, hfloat⟩ := exists_retryCap_of_whole hbase hmax hle hshort hn
  have hearliest : earliest config n = 750000 * c := by
    have hquarters := micros_quarters (q := 3) (by norm_num) hc
    rw [earliest, hfloat]
    exact hquarters
  have hlatest : latest config n = 1250000 * c := by
    have hquarters := micros_quarters (q := 5) (by norm_num) hc
    rw [latest, hfloat]
    exact hquarters
  have hmaxTimestamp : maxTimestamp = 8209320191999999999 := rfl
  have hc' : (c : Int) < 4294967296 := by exact_mod_cast hc
  -- quarters of whole seconds are whole microseconds, so that no rounding is left
  refine ⟨by omega, ?_, ?_, ?_, ?_, ?_, ?_⟩
  · obtain ⟨k, hk⟩ := Int.eq_ofNat_of_zero_le (by omega : 0 ≤ n - 1)
    rw [hbase, Duration.asSecsF64_of_whole (by omega), hk, zpow_natCast]
    have hbase' : (base : ℚ) < 2 ^ 32 := by exact_mod_cast (by omega : base < 2 ^ 32)
    calc (base : ℚ) * 2 ^ k < 2 ^ 32 * 2 ^ k := mul_lt_mul_of_pos_right hbase' (by positivity)
      _ = 2 ^ (32 + k) := (pow_add _ _ _).symm
      _ ≤ 2 ^ 1024 := pow_le_pow_right₀ (by norm_num) (by omega)
  · rw [hearliest, hexact]
    push_cast
    linarith
  · rw [hlatest, hexact]
    push_cast
    linarith
  · omega
  · rw [hearliest]
    linarith
  · rw [hlatest, hmaxTimestamp]
    linarith

end Whole

/-! ## One failure -/

section Failure

variable (a : Bool) (b : Began) (config : WorkerConfig) (error : String) (r : TaskRow)

/-- The call that reports an error for the task of a row, with the delays of the configuration. -/
def failure : Call :=
  ⟨a, .fail r.id error config.baseDelay.asSecsF64 config.maxDelay.asSecsF64, none⟩

/-- The update it sends. -/
def failUpdate : Update :=
  .fail r.id (truncateLastError error) config.baseDelay.asSecsF64 config.maxDelay.asSecsF64

/-- The version it writes. -/
def failVersion (e : Env) : Except SqlError TaskRow := do
  require (storableText (truncateLastError error))
  (failUpdate config error r).set b e r

/-- The ways a failure can end whose update gives `result`. -/
inductive FailEnds (t : Table TaskRow.id) (log : List (ℕ × AuditRow)) (n sid : ℕ)
    (result : Except SqlError TaskRow) : Outcome → System → Prop
  | refused {err} : result = .error err →
      FailEnds t log n sid result (.failed sid (failure a config error r) (some err)) (.idle t log n)
  /-- The audit write has panicked. -/
  | panicked {r'} : result = .ok r' → ¬ Loggable a r.traceId →
      FailEnds t log n sid result (.failed sid (failure a config error r) none) (.idle t log n)
  | failed {r' rows n'} : result = .ok r' → Loggable a r.traceId →
      FailEnds t log n sid result
        (.committed sid (failure a config error r) b [⟨some r, r'⟩] rows
          ((TaskRecord.tryFrom r').map .task))
        (.idle (t.put r') (log ++ rows) n')

variable {a b config error r} {t : Table TaskRow.id} {log : List (ℕ × AuditRow)} {n sid : ℕ}
  {o : Outcome} {db : System} {e : Env}

theorem selects_failUpdate {w : TaskRow} :
    (failUpdate config error r).selects b w = true ↔ w.id = r.id ∧ w.status = .running := by
  simp [failUpdate, Update.selects]

variable (b config error e) in
theorem execUpdate_failUpdate (ht : Constrained t) (hmem : r ∈ t.rows)
    (hrun : r.status = .running) :
    execUpdate b e t.rows allFree (failUpdate config error r) =
      (failVersion b config error r e).map fun r' => [r'] :=
  execUpdate_of_key ht e hmem rfl (fun _ hw => (selects_failUpdate.mp hw).1)
    (selects_failUpdate.mpr ⟨rfl, hrun⟩)

theorem rewrites_failVersion {r' : TaskRow} (hrun : r.status = .running)
    (h : failVersion b config error r e = .ok r') :
    Update.Rewrites b (failUpdate config error r) r r' := by
  obtain ⟨_, -, h⟩ := exists_of_bind_ok h
  exact Update.rewrites_of_set (selects_failUpdate.mpr ⟨rfl, hrun⟩) h

/-- The audit entry of a failure. -/
def failEntry (error : String) (r' : TaskRow) : AuditEntry :=
  ⟨r'.id, some "running", statusToStr r'.status, r'.claimedBy, r'.traceId,
    some (Json.object "error" (truncateLastError error)), r'.region⟩

/-- The update keeps the trace id, which is all the audit write can panic on. -/
theorem loggable_failEntry {r' : TaskRow} (hrun : r.status = .running)
    (h : failVersion b config error r e = .ok r') :
    Loggable a (failEntry error r').traceId ↔ Loggable a r.traceId := by
  rw [← (rewrites_failVersion hrun h).sameTask.traceId]
  rfl

theorem stored_failEntry {r' : TaskRow} :
    ∃ x ∈ (t.putAll [r']).rows, x.id = (failEntry error r').taskId :=
  ⟨r', Table.mem_put.mpr (.inl rfl), rfl⟩

theorem record_failVersion {r' : TaskRow} (hmem : r ∈ t.rows) (hrun : r.status = .running)
    (h : failVersion b config error r e = .ok r') : t.record [r'] = [⟨some r, r'⟩] := by
  rw [Table.record_cons, Table.record_nil, (rewrites_failVersion hrun h).sameTask.id,
    Table.get_key_of_mem hmem]

/-- The ways a failure can end that is served undisturbed. -/
theorem served_fail (ht : Constrained t) (hmem : r ∈ t.rows) (hrun : r.status = .running)
    (h : Served t log n sid (failure a config error r) b o db) :
    ∃ e, ScansAll t e ∧
      FailEnds a b config error r t log n sid (failVersion b config error r e) o db := by
  obtain ⟨vs, ls, fin, hx, rfl, rfl⟩ := served_iff.mp h
  obtain ⟨e, he, hx⟩ := executes_update.mp hx
  refine ⟨e, he, ?_⟩
  change (∃ err, execUpdate b e _ allFree (failUpdate config error r) = .error err ∧ _) ∨
    (∃ rs, execUpdate b e _ allFree (failUpdate config error r) = .ok rs ∧ _) at hx
  -- the update has one target, so that it fails or writes one version
  rw [Table.putAll_nil, execUpdate_failUpdate b config error e ht hmem hrun] at hx
  cases hv : failVersion b config error r e with
  | error err =>
    rw [hv] at hx
    obtain ⟨_, ⟨⟩, rfl, rfl, rfl⟩ | ⟨_, ⟨⟩, -⟩ := hx
    exact .refused rfl
  | ok r' =>
    rw [hv] at hx
    obtain ⟨_, ⟨⟩, -⟩ | ⟨_, ⟨⟩, hx⟩ := hx
    have hlog := loggable_failEntry (a := a) hrun hv
    rcases (executes_insertAuditRow (x := failEntry error r') stored_failEntry).mp hx with
      ⟨hl, hx⟩ | ⟨hl, rfl, rfl, rfl⟩
    · cases hx
      rw [Ending.shows, record_failVersion hmem hrun hv]
      exact .failed rfl (hlog.mp hl)
    · exact .panicked rfl (fun h => hl (hlog.mpr h))

variable (a b config error) in
/-- Every random value is drawn in some call. -/
theorem exists_served_fail (ht : Constrained t) (hmem : r ∈ t.rows) (hrun : r.status = .running)
    (log : List (ℕ × AuditRow)) (n sid : ℕ) (he : ScansAll t e) :
    ∃ o db, Served t log n sid (failure a config error r) b o db ∧
      FailEnds a b config error r t log n sid (failVersion b config error r e) o db := by
  have hupdate := execUpdate_failUpdate b config error e ht hmem hrun
  cases hv : failVersion b config error r e with
  | error err =>
    rw [hv] at hupdate
    have hx : Tx.Executes b t (failure a config error r).program [] [] [] [] (.refused err) :=
      executes_update.mpr ⟨e, he, .inl ⟨err, hupdate, rfl, rfl, rfl⟩⟩
    exact ⟨_, _, served_iff.mpr ⟨_, _, _, hx, rfl, rfl⟩, .refused rfl⟩
  | ok r' =>
    rw [hv] at hupdate
    have hlog := loggable_failEntry (a := a) hrun hv
    -- the audit write appends its row, or panics on the trace id
    by_cases hl : Loggable a r.traceId
    · have hx : Tx.Executes b t (failure a config error r).program [] [] [r']
          ([] ++ logged a b [failEntry error r'])
          (.returned (.commit ((TaskRecord.tryFrom r').map .task))) :=
        executes_update.mpr ⟨e, he, .inr ⟨_, hupdate,
          (executes_insertAuditRow stored_failEntry).mpr (.inl ⟨hlog.mpr hl, .pure⟩)⟩⟩
      refine ⟨_, _, served_iff.mpr ⟨_, _, _, hx, rfl, rfl⟩, ?_⟩
      rw [Ending.shows, record_failVersion hmem hrun hv]
      exact .failed rfl hl
    · have hx : Tx.Executes b t (failure a config error r).program [] [] [r'] [] .unwound :=
        executes_update.mpr ⟨e, he, .inr ⟨_, hupdate,
          (executes_insertAuditRow stored_failEntry).mpr
            (.inr ⟨fun h => hl (hlog.mp h), rfl, rfl, rfl⟩)⟩⟩
      exact ⟨_, _, served_iff.mpr ⟨_, _, _, hx, rfl, rfl⟩, .panicked rfl hl⟩

end Failure

/-! ## The schedule -/

section Schedule

variable (a : Bool) (b : Began) (config : WorkerConfig) (error : String) (r : TaskRow)

/-- What a failure makes of a row: it is failed, its claim and schedule as they were, where its
attempts are used up, and otherwise pending, and due after the delay of the attempt, give or take a
quarter. -/
def Rescheduled (r' : TaskRow) : Prop :=
  if r.attempts.val < r.maxAttempts.val then
    r'.status = .pending ∧ r'.claimedBy = none ∧ r'.claimedUntil = none ∧
      3 / 4 * (retryCap config r.attempts.val * 1000000) ≤ (r'.scheduledAt - b.now : Int) ∧
      ((r'.scheduledAt - b.now : Int) : ℚ) ≤ 5 / 4 * (retryCap config r.attempts.val * 1000000)
  else
    r'.status = .failed ∧ r'.claimedBy = r.claimedBy ∧ r'.claimedUntil = r.claimedUntil ∧
      r'.scheduledAt = r.scheduledAt

/-- A failure of the running row that is served on the store succeeds, and the row leaves running as
scheduled. -/
def FailsOnSchedule (s : Store) : Prop :=
  ∀ log n sid o db, Served s.table log n sid (failure a config error r) b o db →
    ∃ changes rows record r',
      o = .committed sid (failure a config error r) b changes rows (.ok (.task record)) ∧
        db.table.get r.id = some r' ∧ Rescheduled b config r r'

/-- The client can decode the times a failure leaves as they are: where no attempt is left, the
schedule and the lease are among them. -/
structure TimesReadable : Prop where
  lasting : r.Readable
  exhausted : r.maxAttempts.val ≤ r.attempts.val → r.scheduledAt ≤ maxTimestamp ∧
    b.now ≤ maxTimestamp ∧ ∀ t, r.claimedUntil = some t → t ≤ maxTimestamp

/-- The error can be stored, the row can be returned, and its audit write does not panic. -/
structure Failable : Prop where
  error : storableText (truncateLastError error) = true
  queue : QueueName.validate r.queue = .ok ()
  attempts : r.attempts.val ≤ r.maxAttempts.val
  times : TimesReadable b r
  loggable : Loggable a r.traceId

/-- The update writes `r'` for a row to be attempted again after `delay` microseconds. -/
structure WritesRetry (delay : Int) (r' : TaskRow) : Prop where
  power : r.attempts.val ≤ 1024
  product : Duration.asSecsF64 config.baseDelay * 2 ^ (r.attempts.val - 1) < 2 ^ 1024
  interval : delay ≤ 9223372036854775807
  begins : -211813488000000000 ≤ b.now + delay
  ends : b.now + delay ≤ maxTimestamp
  lasting : r.Readable
  version : r' = { r with
    status := .pending
    claimedBy := none
    claimedUntil := none
    lastError := some (truncateLastError error)
    scheduledAt := b.now + delay
    updatedAt := b.now }

variable {a b config error r} {e : Env} {r' : TaskRow}

/-- **When a retry is written**, and what. -/
theorem set_retry_iff (hvalid : config.Valid) (hatt : 1 ≤ r.attempts.val)
    (hlt : r.attempts.val < r.maxAttempts.val) :
    (failUpdate config error r).set b e r = .ok r' ↔ WritesRetry b config error r
      (micros (binary64.round (retryCapF64 config r.attempts.val * spread e))) r' := by
  have hcap := retryCapF64_pos hvalid hatt
  have hspread : 0 ≤ spread e := le_trans (by norm_num) le_spread
  have hnonneg : 0 ≤ retryCapF64 config r.attempts.val * spread e := by positivity
  have hdelay := fun d => retryDelay_eq_ok_iff (e := e) (d := d) hvalid hatt
  have hinterval : ∀ us, makeInterval (binary64.round
      (retryCapF64 config r.attempts.val * spread e)) = .ok us ↔ us = micros (binary64.round
        (retryCapF64 config r.attempts.val * spread e)) ∧ us ≤ 9223372036854775807 := fun us =>
    makeInterval_eq_ok_iff (Format.represents_round hnonneg) (Format.round_nonneg hnonneg)
  have hus := micros_nonneg (Format.round_nonneg (F := binary64) hnonneg)
  generalize hd : binary64.round (retryCapF64 config r.attempts.val * spread e) = delay at *
  constructor
  · intro h
    simp only [failUpdate, Update.set, if_pos hlt] at h
    -- each step has passed the check of its range
    obtain ⟨_, hok, h⟩ := exists_of_bind_ok h
    obtain ⟨hpower, hproduct, rfl, -⟩ := (hdelay _).mp hok
    obtain ⟨_, hok, h⟩ := exists_of_bind_ok h
    obtain ⟨rfl, hlong⟩ := (hinterval _).mp hok
    obtain ⟨_, hok, h⟩ := exists_of_bind_ok h
    obtain ⟨rfl, hbegins, -⟩ := timestamp_eq_ok_iff.mp hok
    obtain ⟨hversion, htimes⟩ := returned_eq_ok_iff.mp h
    obtain ⟨hends, -, -, hlasting⟩ := TaskRow.forall_times_iff.mp htimes
    exact ⟨hpower, hproduct, hlong, hbegins, hends, hlasting, hversion⟩
  · intro h
    have hmax : maxTimestamp < 9223371331200000000 := by decide
    have hnow : b.now ≤ maxTimestamp := (Int.le_add_of_nonneg_right hus).trans h.ends
    have hlt' : delay < 2 ^ 1024 :=
      (lt_of_micros_le h.interval).trans (pow_lt_pow_right₀ (by norm_num) (by norm_num))
    simp only [failUpdate, Update.set, if_pos hlt, (hdelay _).mpr ⟨h.power, h.product, rfl, hlt'⟩,
      (hinterval _).mpr ⟨rfl, h.interval⟩,
      timestamp_eq_ok_iff.mpr ⟨rfl, h.begins, h.ends.trans_lt hmax⟩, bind, Except.bind]
    refine returned_eq_ok_iff.mpr ⟨h.version, TaskRow.forall_times_iff.mpr
      ⟨h.ends, hnow, ?_, h.lasting⟩⟩
    rintro _ ⟨⟩

/-- Where no attempt is left, the version is written if its times can be decoded. -/
theorem set_exhaust_iff (hle : r.maxAttempts.val ≤ r.attempts.val) :
    (failUpdate config error r).set b e r = .ok r' ↔ TimesReadable b r ∧ r' = { r with
      status := .failed
      lastError := some (truncateLastError error)
      updatedAt := b.now } := by
  simp only [failUpdate, Update.set, if_neg (Int.not_lt.mpr hle)]
  refine (returned_eq_ok_iff.trans and_comm).trans (and_congr_left fun _ => ?_)
  refine TaskRow.forall_times_iff.trans ⟨?_, ?_⟩
  · rintro ⟨hsched, hnow, huntil, hlasting⟩
    exact ⟨hlasting, fun _ => ⟨hsched, hnow, huntil⟩⟩
  · rintro ⟨hlasting, hexhausted⟩
    obtain ⟨hsched, hnow, huntil⟩ := hexhausted hle
    exact ⟨hsched, hnow, huntil, hlasting⟩

theorem failVersion_eq_ok_iff : failVersion b config error r e = .ok r' ↔
    storableText (truncateLastError error) = true ∧
      (failUpdate config error r).set b e r = .ok r' := by
  unfold failVersion require
  split
  next h => exact (and_iff_right h).symm
  next h => exact iff_of_false (fun hok => by cases hok) fun hok => h hok.1

/-- Where the schedule fits, the version is written, and on schedule. -/
theorem failVersion_of_fits (hvalid : config.Valid) (hatt : 1 ≤ r.attempts.val)
    (herror : storableText (truncateLastError error) = true) (htimes : TimesReadable b r)
    (hfits : r.attempts.val < r.maxAttempts.val → RetryFits b config r.attempts.val) :
    ∃ r', failVersion b config error r e = .ok r' ∧ Rescheduled b config r r' := by
  by_cases hlt : r.attempts.val < r.maxAttempts.val
  · have hf := hfits hlt
    have hcap := retryCapF64_pos hvalid hatt
    have hlow := earliest_le (e := e) hcap
    have hhigh := le_latest (e := e) hcap
    have hwrites : WritesRetry b config error r
        (micros (binary64.round (retryCapF64 config r.attempts.val * spread e))) _ :=
      ⟨hf.power, hf.product, hhigh.trans hf.interval,
        hf.begins.trans (Int.add_le_add_left hlow _), (Int.add_le_add_left hhigh _).trans hf.ends,
        htimes.lasting, rfl⟩
    refine ⟨_, failVersion_eq_ok_iff.mpr ⟨herror, (set_retry_iff hvalid hatt hlt).mpr hwrites⟩, ?_⟩
    rw [Rescheduled, if_pos hlt]
    refine ⟨rfl, rfl, rfl, ?_⟩
    rw [add_sub_cancel_left]
    exact ⟨hf.low.trans (by exact_mod_cast hlow), le_trans (by exact_mod_cast hhigh) hf.high⟩
  · refine ⟨_, failVersion_eq_ok_iff.mpr ⟨herror, (set_exhaust_iff (Int.not_lt.mp hlt)).mpr
      ⟨htimes, rfl⟩⟩, ?_⟩
    rw [Rescheduled, if_neg hlt]
    exact ⟨rfl, rfl, rfl, rfl⟩

/-- A version has been written of a row whose times can be decoded. -/
theorem timesReadable_of_failVersion (hvalid : config.Valid) (hatt : 1 ≤ r.attempts.val)
    (h : failVersion b config error r e = .ok r') : TimesReadable b r := by
  obtain ⟨-, hset⟩ := failVersion_eq_ok_iff.mp h
  by_cases hlt : r.attempts.val < r.maxAttempts.val
  · exact ⟨((set_retry_iff hvalid hatt hlt).mp hset).lasting, fun hle =>
      absurd hlt (Int.not_lt.mpr hle)⟩
  · exact ((set_exhaust_iff (Int.not_lt.mp hlt)).mp hset).1

variable (error) in
/-- Where every random value gives a version on schedule, the schedule fits: its ends are drawn. -/
theorem retryFits_of_failVersion (hvalid : config.Valid) (hatt : 1 ≤ r.attempts.val)
    (hlt : r.attempts.val < r.maxAttempts.val)
    (h : ∀ e, e.seen = (fun _ => true) →
      ∃ r', failVersion b config error r e = .ok r' ∧ Rescheduled b config r r') :
    RetryFits b config r.attempts.val := by
  have hdrawn : ∀ e, e.seen = (fun _ => true) → ∃ r', WritesRetry b config error r
      (micros (binary64.round (retryCapF64 config r.attempts.val * spread e))) r' ∧
      Rescheduled b config r r' := by
    intro e he
    obtain ⟨r', hv, hr'⟩ := h e he
    exact ⟨r', (set_retry_iff hvalid hatt hlt).mp (failVersion_eq_ok_iff.mp hv).2, hr'⟩
  -- the least and the greatest random value give the ends of the spread
  obtain ⟨_, hfirst, hlow⟩ := hdrawn .all rfl
  obtain ⟨_, hlast, hhigh⟩ := hdrawn .allTop rfl
  rw [Rescheduled, if_pos hlt] at hlow hhigh
  rw [hfirst.version, add_sub_cancel_left, spread_all] at hlow
  rw [hlast.version, add_sub_cancel_left, spread_allTop] at hhigh
  rw [spread_all] at hfirst
  rw [spread_allTop] at hlast
  exact ⟨hfirst.power, hfirst.product, hlow.2.2.2.1, hhigh.2.2.2.2, hlast.interval, hfirst.begins,
    hlast.ends⟩

/-- A version of a failure decodes where the row's queue name is valid and its attempts are within
their maximum. -/
theorem decodes_failVersion (hrun : r.status = .running) (hkind : r.kind.isEmpty = false)
    (hatt : 1 ≤ r.attempts.val) (h : failVersion b config error r e = .ok r') :
    r'.Decodes ↔ QueueName.validate r.queue = .ok () ∧ r.attempts.val ≤ r.maxAttempts.val := by
  have hrw := rewrites_failVersion hrun h
  have hatt' : r'.attempts = r.attempts := by
    generalize hu : failUpdate config error r = u at hrw
    cases hrw with
    | retry => rfl
    | exhaust => rfl
    | _ => cases hu
  have hsame := hrw.sameTask
  constructor
  · intro hd
    exact ⟨hsame.queue ▸ hd.queue, hsame.maxAttempts ▸ hatt' ▸ hd.le⟩
  · rintro ⟨hqueue, hle⟩
    rw [← hsame.queue] at hqueue
    rw [← hsame.maxAttempts, ← hatt'] at hle
    rw [← hatt'] at hatt
    exact ⟨hsame.kind ▸ hkind, hqueue, by omega, by omega, hle⟩

variable {s : Store}

/-- **When a failed task leaves running as scheduled.** A failure of a running row succeeds and
leaves it failed or due after the delay of its attempt, whatever random value is drawn, if and only
if the error can be stored, the row can be returned, its audit write does not panic, and, where an
attempt is left, the schedule fits; the delay grows with the attempts, up to the maximum. -/
theorem retry_schedule_iff (a : Bool) (b : Began) (config : WorkerConfig) (error : String)
    (s : Store) (r : TaskRow) (hvalid : config.validate = .ok ()) (hmem : r ∈ s.table.rows)
    (hrun : r.status = .running) (hatt : 1 ≤ r.attempts.val) :
    (FailsOnSchedule a b config error r s ∧
        (∀ i j, i ≤ j → retryCap config i ≤ retryCap config j) ∧
        ∀ i, retryCap config i ≤ Duration.toSecs config.maxDelay) ↔
      Failable a b error r ∧
        (r.attempts.val < r.maxAttempts.val → RetryFits b config r.attempts.val) := by
  have hconfig := WorkerConfig.validate_eq_ok_iff.mp hvalid
  have hkind := s.constrained.kind r hmem
  constructor
  · rintro ⟨h, -⟩
    -- whatever is drawn, the call has written a version on schedule and returned it
    have hdrawn : ∀ e, e.seen = (fun _ => true) → Loggable a r.traceId ∧
        ∃ r', failVersion b config error r e = .ok r' ∧ r'.Decodes ∧ Rescheduled b config r r' := by
      intro e he
      have hscans : ScansAll s.table e := fun w _ => congrFun he w.id
      obtain ⟨o, db, hs, hends⟩ := exists_served_fail a b config error s.constrained hmem hrun
        [] 0 0 hscans
      obtain ⟨_, _, record, w, rfl, hget, hsched⟩ := h [] 0 0 o db hs
      generalize hreply : (Except.ok (Response.task record) : Reply) = reply at hends
      cases hends with
      | @failed r' _ _ hv hlog =>
        have hid := (rewrites_failVersion hrun hv).sameTask.id
        have hw : w = r' := by
          have hput := Table.get_put_self s.table r'
          rw [hid] at hput
          exact Option.some.inj (hget.symm.trans hput)
        obtain ⟨record', hrecord, -⟩ := eq_of_map_eq_ok hreply.symm
        obtain ⟨hd, -⟩ := tryFrom_eq_ok_iff.mp hrecord
        exact ⟨hlog, r', hv, hd, hw ▸ hsched⟩
    obtain ⟨hlog, r', hv, hd, -⟩ := hdrawn .all rfl
    obtain ⟨hqueue, hle⟩ := (decodes_failVersion hrun hkind hatt hv).mp hd
    have htimes := timesReadable_of_failVersion hconfig hatt hv
    refine ⟨⟨(failVersion_eq_ok_iff.mp hv).1, hqueue, hle, htimes, hlog⟩, fun hlt =>
      retryFits_of_failVersion error hconfig hatt hlt fun e he => ?_⟩
    obtain ⟨-, r', hv, -, hsched⟩ := hdrawn e he
    exact ⟨r', hv, hsched⟩
  · rintro ⟨hfail, hfits⟩
    refine ⟨fun log n sid o db hs => ?_, fun i j => retryCap_mono, fun i => retryCap_le⟩
    obtain ⟨e, -, hends⟩ := served_fail s.constrained hmem hrun hs
    obtain ⟨r', hv, hsched⟩ :=
      failVersion_of_fits (e := e) hconfig hatt hfail.error hfail.times hfits
    have hid := (rewrites_failVersion hrun hv).sameTask.id
    cases hends with
    | refused herr =>
      rw [hv] at herr
      cases herr
    | panicked _ hbad => exact absurd hfail.loggable hbad
    | @failed w _ _ hw _ =>
      obtain rfl : r' = w := Except.ok.inj (hv.symm.trans hw)
      have hd := (decodes_failVersion hrun hkind hatt hv).mpr ⟨hfail.queue, hfail.attempts⟩
      have hput := Table.get_put_self s.table r'
      rw [hid] at hput
      rw [tryFrom_of_decodes hd]
      exact ⟨_, _, _, r', rfl, hput, hsched⟩

end Schedule

/-- A running row of a task that may be attempted 2000 times. -/
def attempted (attempts : I32) : TaskRow :=
  { insertedRow ⟨0⟩ (sampleTask .default) none with
    status := .running
    claimedBy := some sampleWorker
    claimedUntil := some 1
    attempts
    maxAttempts := ⟨2000, by decide, by decide⟩ }

def attemptedStore (attempts : I32) : Store := .single (attempted attempts) rfl rfl

/-- With the default configuration, the first retry is due after 3.75 to 6.25 seconds. -/
theorem first_retry_on_schedule : FailsOnSchedule false ⟨0⟩ .default "connection refused"
    (attempted ⟨1, by decide, by decide⟩) (attemptedStore ⟨1, by decide, by decide⟩) := by
  have htimes : TimesReadable ⟨0⟩ (attempted ⟨1, by decide, by decide⟩) :=
    ⟨by unfold TaskRow.Readable; decide, by decide⟩
  have hfail : Failable false ⟨0⟩ "connection refused" (attempted ⟨1, by decide, by decide⟩) :=
    ⟨by decide, by decide, by decide, htimes, fun h => nomatch h⟩
  have hfits : RetryFits ⟨0⟩ .default 1 :=
    @retryFits_of_whole .default 5 1800 1 ⟨0⟩ rfl rfl (by norm_num) (by norm_num) le_rfl
      (by norm_num) (by decide) (by decide)
  exact ((retry_schedule_iff false ⟨0⟩ .default "connection refused" (attemptedStore _) (attempted _)
    WorkerConfig.validate_default (Store.mem_single.mpr rfl) rfl (by decide)).mpr
      ⟨hfail, fun _ => hfits⟩).1

/-- The power of the 1025th attempt is out of range, and the task stays running. -/
theorem late_retry_refused : ¬ FailsOnSchedule false ⟨0⟩ .default "connection refused"
    (attempted ⟨1025, by decide, by decide⟩) (attemptedStore ⟨1025, by decide, by decide⟩) := by
  intro h
  have hmem : attempted ⟨1025, by decide, by decide⟩ ∈
      (attemptedStore ⟨1025, by decide, by decide⟩).table.rows := Store.mem_single.mpr rfl
  obtain ⟨o, db, hs, hends⟩ := exists_served_fail false ⟨0⟩ .default "connection refused"
    (attemptedStore _).constrained hmem rfl [] 0 0 scansAll_all
  obtain ⟨_, _, _, _, rfl, -⟩ := h [] 0 0 o db hs
  generalize (Except.ok (Response.task _) : Reply) = reply at hends
  cases hends with
  | failed hv =>
    have hset := (failVersion_eq_ok_iff.mp hv).2
    have hvalid := WorkerConfig.validate_eq_ok_iff.mp WorkerConfig.validate_default
    have hpower := ((set_retry_iff hvalid (by decide) (by decide)).mp hset).power
    revert hpower
    decide

end IronDefer
