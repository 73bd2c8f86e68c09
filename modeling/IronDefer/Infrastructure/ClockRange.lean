import IronDefer.Application.PollLoop
import IronDefer.Application.Scheduler
import IronDefer.Infrastructure.Claiming
import IronDefer.Infrastructure.Retries
import IronDefer.Infrastructure.Watchdog

/-!
# The times a configuration leads to

Four operations add a duration of the configuration to the clock, or subtract it: the end of a lease,
the cut-off of the watchdog, the time of a retry, and the expiry of a key. The check of a
configuration bounds its durations from below only. A duration that is too long passes the check,
and then the operation fails in every call, since the time it makes is out of range. The cut-off
stays in the database; the other three have to be times of the client too, which end before those of
the database.

## Main definitions

* `ClockRange`: the clock reads a time from 1970 to 2262
* `WorkerConfig.UsableAt`: the four times can be represented at a clock value
* `WorkerConfig.WithinClock`: the longest durations for which they can

## Main results

* `delayFits_iff`: when the database can add a delay to its clock
* `retryDelay_reaches_cap`: some attempt waits for the whole of the maximal delay
* `usable_iff`: **a configuration is usable at every clock value exactly where its durations are not
  too long**
-/

namespace IronDefer

open RowStore Rounding

/-- Midnight of the first of January, 1970. -/
def firstInstant : DateTime := -946684800000000000

/-- Midnight of the first of January, 2263. -/
def endInstant : DateTime := 8299497600000000000

/-- A time from 1970 to 2262. -/
def ClockRange (now : DateTime) : Prop := firstInstant ≤ now ∧ now < endInstant

instance (now : DateTime) : Decidable (ClockRange now) := inferInstanceAs (Decidable (_ ∧ _))

/-- The database can make an interval of the seconds and add it to its clock, and the client can
decode the sum. -/
def DelayFits (b : Began) (secs : ℚ) : Prop :=
  ∃ us t, makeInterval secs = .ok us ∧ timestamp (b.now + us) = .ok t ∧ t ≤ maxTimestamp

/-- Each time made from a duration of the configuration can be represented. -/
structure WorkerConfig.UsableAt (config : WorkerConfig) (now : DateTime) : Prop where
  lease : LeaseFits ⟨now.toTimestamp⟩ config.leaseDuration
  cutOff : Subtractable now.toTimestamp config.suspendTimeout
  retry : ∀ (e : Env) (attempts : I32) (delay : ℚ), 1 ≤ attempts.val →
    Update.retryDelay e attempts config.baseDelay.asSecsF64 config.maxDelay.asSecsF64 = .ok delay →
    DelayFits ⟨now.toTimestamp⟩ delay
  expiry : ∃ t, idempotencyExpiresAt now config.idempotencyKeyRetention = .ok t

/-- The longest durations, in nanoseconds, whose times can be represented from 1970 to 2262. -/
structure WorkerConfig.WithinClock (config : WorkerConfig) : Prop where
  lease : config.leaseDuration ≤ 8201020694400000488281
  cutOff : config.suspendTimeout < 210866803201000000000
  retry : config.maxDelay ≤ 6560816555520000488281
  expiry : config.idempotencyKeyRetention ≤ 8201020694400000000000

/-! ## Delays -/

section Delays

variable {b : Began} {secs : ℚ} {now : DateTime}

theorem delayFits_iff (hs : binary64.Represents secs) (hs₀ : 0 ≤ secs) : DelayFits b secs ↔
    micros secs ≤ 9223372036854775807 ∧ -211813488000000000 ≤ b.now + micros secs ∧
      b.now + micros secs ≤ maxTimestamp := by
  have hmax : maxTimestamp < 9223371331200000000 := by decide
  constructor
  · rintro ⟨us, t, hus, ht, hle⟩
    obtain ⟨rfl, hlong⟩ := (makeInterval_eq_ok_iff hs hs₀).mp hus
    obtain ⟨rfl, hlower, -⟩ := timestamp_eq_ok_iff.mp ht
    exact ⟨hlong, hlower, hle⟩
  · rintro ⟨hlong, hlower, hle⟩
    exact ⟨_, _, (makeInterval_eq_ok_iff hs hs₀).mpr ⟨rfl, hlong⟩,
      timestamp_eq_ok_iff.mpr ⟨rfl, hlower, hle.trans_lt hmax⟩, hle⟩

theorem toTimestamp_bounds (h : ClockRange now) :
    -946684800000000 ≤ now.toTimestamp ∧ now.toTimestamp ≤ 8299497599999999 := by
  have hfirst : (-946684800000000000 : Int) ≤ (now : Int) := h.1
  have hend : (now : Int) < 8299497600000000000 := h.2
  have hdiv : ∀ t : Int, -946684800000000000 ≤ t → t < 8299497600000000000 →
      -946684800000000 ≤ t.tdiv 1000 ∧ t.tdiv 1000 ≤ 8299497599999999 := by
    intro t hlow hhigh
    rw [Int.tdiv_eq_ediv]
    split
    · omega
    · have hsign : Int.sign 1000 = 1 := rfl
      omega
  exact hdiv now hfirst hend

/-- The last instant before 2263. -/
def lastInstant : DateTime := 8299497599999999999

theorem clockRange_lastInstant : ClockRange lastInstant := by decide

theorem clockRange_firstInstant : ClockRange firstInstant := by decide

/-- A delay fits from 1970 to 2262 where it fits at the last microsecond. -/
theorem delayFits_of_le (hs : binary64.Represents secs) (hs₀ : 0 ≤ secs) (h : ClockRange now)
    (hle : micros secs ≤ 8201020694400000000) : DelayFits ⟨now.toTimestamp⟩ secs := by
  obtain ⟨hlow, hhigh⟩ := toTimestamp_bounds h
  have hnonneg := micros_nonneg hs₀
  have hmax : maxTimestamp = 8209320191999999999 := rfl
  refine (delayFits_iff hs hs₀).mpr ⟨hle.trans (by norm_num), ?_, ?_⟩
  · show _ ≤ now.toTimestamp + _
    linarith
  · show now.toTimestamp + _ ≤ _
    rw [hmax]
    linarith

theorem le_of_delayFits (hs : binary64.Represents secs) (hs₀ : 0 ≤ secs)
    (h : DelayFits ⟨lastInstant.toTimestamp⟩ secs) : micros secs ≤ 8201020694400000000 := by
  have hlast : lastInstant.toTimestamp = 8299497599999999 := by decide
  have hmax : maxTimestamp = 8209320191999999999 := rfl
  have hle : lastInstant.toTimestamp + micros secs ≤ maxTimestamp :=
    ((delayFits_iff hs hs₀).mp h).2.2
  rw [hlast, hmax] at hle
  linarith

end Delays

/-! ## The four times -/

section Times

variable {config : WorkerConfig}

/-- A duration is at most so long, where rounding keeps it from those that are longer. -/
theorem le_iff_of_mono {f : Duration → Int} (bound : Int) (longest : Duration)
    (hmono : ∀ d d' : Duration, d ≤ d' → d ≤ longest + 1 → f d ≤ f d')
    (hlongest : f longest ≤ bound) (hnext : bound < f (longest + 1)) (d : Duration) :
    f d ≤ bound ↔ d ≤ longest := by
  constructor
  · intro h
    by_contra hlt
    exact absurd h (Int.not_le.mpr (hnext.trans_le (hmono _ _ (Nat.lt_of_not_le hlt) le_rfl)))
  · intro h
    exact (hmono _ _ h (h.trans (Nat.le_succ _))).trans hlongest

/-- The longest lease, in microseconds. -/
theorem lease_iff {lease : Duration} :
    (∀ now, ClockRange now → LeaseFits ⟨now.toTimestamp⟩ lease) ↔
      lease ≤ 8201020694400000488281 := by
  have hmono : ∀ d d' : Duration, d ≤ d' → d ≤ 8201020694400000488281 + 1 →
      micros d.asSecsF64 ≤ micros d'.asSecsF64 := fun d d' h hd =>
    micros_mono Duration.asSecsF64_nonneg (Duration.asSecsF64_mono h (hd.trans_lt (by norm_num)))
  -- what is a nanosecond longer is rounded to a microsecond more
  rw [← le_iff_of_mono 8201020694400000000 _ hmono (by decide +kernel) (by decide +kernel)]
  exact ⟨fun h => le_of_delayFits Duration.represents_asSecsF64 Duration.asSecsF64_nonneg
      (h lastInstant clockRange_lastInstant),
    fun h now hnow =>
      delayFits_of_le Duration.represents_asSecsF64 Duration.asSecsF64_nonneg hnow h⟩

theorem cutOff_iff {timeout : Duration} :
    (∀ now, ClockRange now → Subtractable now.toTimestamp timeout) ↔
      timeout < 210866803201000000000 := by
  have hround : wholeSeconds timeout ≤ 210866803200000000 ↔ timeout < 210866803201000000000 := by
    have hdiv : ∀ n : ℕ, ((n / 1000000000 : ℕ) : Int) * 1000000 ≤ 210866803200000000 ↔
        n < 210866803201000000000 := by
      intro n
      omega
    exact hdiv timeout
  constructor
  · intro h
    -- the first instant of the clock is the hardest
    have hfirst : firstInstant.toTimestamp = -946684800000000 := by decide
    have hlower := (h firstInstant clockRange_firstInstant).lower
    rw [hfirst] at hlower
    by_contra hlong
    have hle : cutOff 210866803201000000000 ≤ cutOff timeout :=
      micros_mono (Format.round_nonneg (by positivity)) (Format.round_mono (by positivity)
        (by exact_mod_cast Nat.div_le_div_right (Nat.le_of_not_lt hlong)))
    have heq : cutOff 210866803201000000000 = 210866803201000000 := by
      rw [cutOff_eq (by norm_num)]
      rfl
    rw [heq] at hle
    linarith
  · intro hlt now hnow
    obtain ⟨hlow, hhigh⟩ := toTimestamp_bounds hnow
    have hle := hround.mpr hlt
    rw [← cutOff_eq (hlt.trans (by norm_num))] at hle
    have hnonneg : 0 ≤ cutOff timeout := cutOff_nonneg
    refine ⟨?_, ?_, ?_⟩
    · linarith
    · linarith
    · linarith

theorem expiry_iff {retention : Duration} :
    (∀ now, ClockRange now → ∃ t, idempotencyExpiresAt now retention = .ok t) ↔
      retention ≤ 8201020694400000000000 := by
  have hok : ∀ now, (∃ t, idempotencyExpiresAt now retention = .ok t) ↔
      retention ≤ maxDelta ∧ now + retention ≤ maxDateTime := by
    intro now
    unfold idempotencyExpiresAt
    split
    next hdelta => exact iff_of_false (fun ⟨_, h⟩ => nomatch h) fun h => absurd hdelta (not_lt.mpr h.1)
    next hdelta =>
      split
      next hlate => exact iff_of_false (fun ⟨_, h⟩ => nomatch h) fun h => absurd hlate (not_lt.mpr h.2)
      next hlate => exact iff_of_true ⟨_, rfl⟩ ⟨not_lt.mp hdelta, not_lt.mp hlate⟩
  have hdateTime : maxDateTime = 8209320191999999999999 := rfl
  have hdelta : maxDelta = 9223372036854775807000000 := rfl
  constructor
  -- the last instant of the clock is the hardest
  · intro h
    have hlast := ((hok lastInstant).mp (h lastInstant clockRange_lastInstant)).2
    have hlastInstant : lastInstant = 8299497599999999999 := rfl
    rw [hlastInstant, hdateTime] at hlast
    have hle : (retention : Int) ≤ 8201020694400000000000 := by linarith
    exact_mod_cast hle
  · intro h now hnow
    have hend : (now : Int) ≤ 8299497599999999999 := Int.le_sub_one_of_lt hnow.2
    have hle : (retention : Int) ≤ 8201020694400000000000 := by exact_mod_cast h
    refine (hok now).mpr ⟨?_, ?_⟩
    · rw [hdelta]
      exact h.trans (by norm_num)
    · rw [hdateTime]
      have hsum : (now : Int) + (retention : Int) ≤ 8209320191999999999999 := by linarith
      exact hsum

/-- A duration has less than `2 ^ 65` seconds, as a double. -/
theorem asSecsF64_le_of_le_max {d : Duration} (h : d ≤ Duration.max) : d.asSecsF64 ≤ 2 ^ 65 := by
  have hmax : Duration.max = 18446744073709551615999999999 := rfl
  have hpow : ∀ k : ℕ, binary64.Represents ((2 : ℚ) ^ k) := fun k =>
    Format.represents_two_zpow (k := k) (by change (-1074 : ℤ) ≤ k; omega)
  have hsecs : ((d / 1000000000 : ℕ) : ℚ) ≤ 2 ^ 64 := by
    have hle : d / 1000000000 ≤ 2 ^ 64 := Nat.div_le_of_le_mul (h.trans (by rw [hmax]; norm_num))
    exact_mod_cast hle
  have hwhole := Format.round_le (by positivity) hsecs (hpow 64)
  refine Format.round_le (add_nonneg (Format.round_nonneg (by positivity))
    (Format.round_nonneg (by positivity))) ?_ (hpow 65)
  have hsubsec := Duration.round_subsec_le (d := d)
  linarith

/-- The 96th attempt. -/
def capAttempt : I32 := ⟨96, by decide, by decide⟩

theorem retryCapF64_capAttempt (hvalid : config.Valid) (hmax : config.maxDelay ≤ Duration.max) :
    retryCapF64 config capAttempt.val = config.maxDelay.asSecsF64 := by
  have hbase := Duration.le_asSecsF64 hvalid.baseDelay
  have hval : capAttempt.val - 1 = 95 := rfl
  apply min_eq_right
  calc config.maxDelay.asSecsF64 ≤ 2 ^ (-30 : ℤ) * 2 ^ (capAttempt.val - 1) :=
        (asSecsF64_le_of_le_max hmax).trans (by rw [hval]; norm_num)
    _ ≤ config.baseDelay.asSecsF64 * 2 ^ (capAttempt.val - 1) :=
        mul_le_mul_of_nonneg_right hbase (by positivity)

/-- **The 96th attempt waits for the whole of the maximal delay**, since a nanosecond doubled 95
times is longer than the longest duration. -/
theorem retryDelay_reaches_cap (hvalid : config.Valid) (hmax : config.maxDelay ≤ Duration.max)
    (e : Env) :
    Update.retryDelay e capAttempt config.baseDelay.asSecsF64 config.maxDelay.asSecsF64 =
      .ok (binary64.round (config.maxDelay.asSecsF64 * spread e)) := by
  have hlongest := asSecsF64_le_of_le_max hmax
  have hbase := asSecsF64_le_of_le_max (hvalid.maxDelay.trans hmax)
  refine (retryDelay_eq_ok_iff hvalid (by decide)).mpr ⟨by decide, ?_, ?_, ?_⟩
  · calc config.baseDelay.asSecsF64 * 2 ^ (capAttempt.val - 1)
        ≤ 2 ^ 65 * 2 ^ (95 : ℤ) := mul_le_mul_of_nonneg_right hbase (by positivity)
      _ = 2 ^ 160 := by norm_num
      _ < 2 ^ 1024 := pow_lt_pow_right₀ (by norm_num) (by norm_num)
  · rw [retryCapF64_capAttempt hvalid hmax]
  · have hrep : binary64.Represents ((2 : ℚ) ^ 66) :=
      Format.represents_two_zpow (k := 66) (by decide)
    have hlow := le_spread (e := e)
    have hhigh := spread_le (e := e)
    refine lt_of_le_of_lt (Format.round_le ?_ ?_ hrep)
      (pow_lt_pow_right₀ (by norm_num) (by norm_num))
    · exact mul_nonneg Duration.asSecsF64_nonneg (by linarith)
    · calc config.maxDelay.asSecsF64 * spread e ≤ 2 ^ 65 * (5 / 4) :=
            mul_le_mul hlongest hhigh (by linarith) (by norm_num)
        _ ≤ 2 ^ 66 := by norm_num

/-- The longest delay of a retry. -/
theorem retry_iff (hvalid : config.Valid) (hmax : config.maxDelay ≤ Duration.max) :
    (∀ now, ClockRange now → ∀ (e : Env) (attempts : I32) (delay : ℚ), 1 ≤ attempts.val →
      Update.retryDelay e attempts config.baseDelay.asSecsF64 config.maxDelay.asSecsF64 =
        .ok delay → DelayFits ⟨now.toTimestamp⟩ delay) ↔
      config.maxDelay ≤ 6560816555520000488281 := by
  have hspread : ∀ d : Duration, 0 ≤ d.asSecsF64 * (5 / 4) := fun d =>
    mul_nonneg Duration.asSecsF64_nonneg (by norm_num)
  have hmono : ∀ d d' : Duration, d ≤ d' → d ≤ 6560816555520000488281 + 1 →
      micros (binary64.round (d.asSecsF64 * (5 / 4))) ≤
        micros (binary64.round (d'.asSecsF64 * (5 / 4))) := fun d d' h hd =>
    micros_mono (Format.round_nonneg (hspread d)) (Format.round_mono (hspread d)
      (mul_le_mul_of_nonneg_right (Duration.asSecsF64_mono h (hd.trans_lt (by norm_num)))
        (by norm_num)))
  rw [← le_iff_of_mono 8201020694400000000 _ hmono (by decide +kernel) (by decide +kernel)]
  constructor
  -- the greatest random value spreads the delay to its end
  · intro h
    refine le_of_delayFits (Format.represents_round (hspread _)) (Format.round_nonneg (hspread _))
      ?_
    have hdelay := retryDelay_reaches_cap hvalid hmax .allTop
    rw [spread_allTop] at hdelay
    exact h lastInstant clockRange_lastInstant .allTop capAttempt _ (by decide) hdelay
  · intro hshort now hnow e attempts delay hatt hdelay
    obtain ⟨-, -, rfl, -⟩ := (retryDelay_eq_ok_iff hvalid hatt).mp hdelay
    have hcap := retryCapF64_pos hvalid hatt
    have hlow := le_spread (e := e)
    have hnonneg : 0 ≤ retryCapF64 config attempts.val * spread e :=
      mul_nonneg hcap.le (by linarith)
    refine delayFits_of_le (Format.represents_round hnonneg) (Format.round_nonneg hnonneg) hnow ?_
    have hle : retryCapF64 config attempts.val * spread e ≤ config.maxDelay.asSecsF64 * (5 / 4) :=
      mul_le_mul (min_le_right _ _) spread_le (by linarith) Duration.asSecsF64_nonneg
    exact (micros_mono (Format.round_nonneg hnonneg) (Format.round_mono hnonneg hle)).trans hshort

end Times

/-- **A configuration that passes its check is usable at every clock value exactly where its
durations are not too long.** -/
theorem usable_iff {config : WorkerConfig} (hvalid : config.validate = .ok ())
    (hmax : config.maxDelay ≤ Duration.max) :
    (∀ now, ClockRange now → config.UsableAt now) ↔ config.WithinClock := by
  have hv := WorkerConfig.validate_eq_ok_iff.mp hvalid
  constructor
  · intro h
    exact ⟨lease_iff.mp fun now hnow => (h now hnow).lease,
      cutOff_iff.mp fun now hnow => (h now hnow).cutOff,
      (retry_iff hv hmax).mp fun now hnow => (h now hnow).retry,
      expiry_iff.mp fun now hnow => (h now hnow).expiry⟩
  · intro h now hnow
    exact ⟨lease_iff.mpr h.lease now hnow, cutOff_iff.mpr h.cutOff now hnow,
      (retry_iff hv hmax).mpr h.retry now hnow, expiry_iff.mpr h.expiry now hnow⟩

/-- The default configuration is usable. -/
theorem default_usable : WorkerConfig.default.WithinClock ∧
    ∀ now, ClockRange now → WorkerConfig.default.UsableAt now := by
  have hwithin : WorkerConfig.default.WithinClock := ⟨by decide, by decide, by decide, by decide⟩
  exact ⟨hwithin, (usable_iff WorkerConfig.validate_default (by decide)).mpr hwithin⟩

/-- The default configuration with a timeout of ten thousand years, so that suspended tasks never
expire. -/
def neverExpiring : WorkerConfig :=
  { WorkerConfig.default with suspendTimeout := 315576000000000000000 }

/-- It passes the check, and the watchdog fails in every call, at every clock value. -/
theorem never_expiring_unusable : neverExpiring.validate = .ok () ∧
    ∀ now, ClockRange now → ¬ neverExpiring.UsableAt now ∧
      ∀ (e : Env) (t : Table TaskRow.id), ∃ err, execUpdate ⟨now.toTimestamp⟩ e t.rows allFree
        (.expireSuspendedTasks (neverExpiring.suspendTimeout / 1000000000)) = .error err := by
  refine ⟨by decide, fun now hnow => ?_⟩
  have hout : ¬ Subtractable now.toTimestamp neverExpiring.suspendTimeout := by
    intro h
    have hsecs : cutOff neverExpiring.suspendTimeout = 315576000000000000 := by
      rw [cutOff_eq (by decide)]
      rfl
    have hlower := h.lower
    have hhigh := (toTimestamp_bounds hnow).2
    rw [hsecs] at hlower
    linarith
  exact ⟨fun h => hout h.cutOff, fun e t => execUpdate_expireSuspendedTasks_refused hout⟩

end IronDefer
