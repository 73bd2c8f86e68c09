import IronDefer.Application.PollLoop
import IronDefer.Machine.Span

/-!
# The delay after a claim error

What the poll loop computes after an error of `claim_next`, in the widths it computes it in: a count
of 32 bits, spans of time whose seconds have 64, milliseconds of 128 bits converted to 64, and a
jitter drawn from a range. The loop over natural numbers takes the same step, and no operation
leaves the bounds of its type.

## Main definitions

* `claimErrorBase`: the base of the delay
* `claimError`: the arm of the loop for an error, where a draw may panic
* `DrawsWithin`: a source of randomness that draws from every range that is not empty
* `ClaimBackoff.Within`: what an arm computes is exact, and within its bounds

## Main results

* `LoopState.onClaim_claimError`: the loop takes the step the arm computes
* `claimErrorBase_mono`: the base does not decrease with the count
* `claim_delay_within`: **the delay lies between its base and the cap, and nothing overflows**
-/

namespace IronDefer

open Machine (Span saturatingPow saturatingAdd saturatingSub toU64 maxU64)

/-- What the loop computes after an error. -/
structure ClaimBackoff where
  cappedBase : Span
  jitterRange : UInt64
  jitterMs : UInt64
  delay : Span
  consecutiveErrors : UInt32
  delayMs : UInt64
  backoffUntil : Instant

section Arm

variable (pollInterval maxClaimBackoff : Span)

/-- The base of the delay, cut at the cap. -/
def claimErrorBase (consecutiveErrors : UInt32) : Span :=
  min (pollInterval.saturatingMul (saturatingPow 2 (saturatingSub consecutiveErrors 1)))
    maxClaimBackoff

/-- The most milliseconds of jitter for a base. -/
def claimErrorRange (cappedBase : Span) : UInt64 :=
  min ((toU64 (maxClaimBackoff.saturatingSub cappedBase).asMillis).getD 0) (maxU64 - 1)

/-- What the loop computes with a jitter that has been drawn. -/
def claimErrorWith (now : Instant) (consecutiveErrors : UInt32) (jitterMs : UInt64) :
    ClaimBackoff :=
  let cappedBase := claimErrorBase pollInterval maxClaimBackoff consecutiveErrors
  let delay := cappedBase.saturatingAdd (.fromMillis jitterMs)
  { cappedBase
    jitterRange := claimErrorRange maxClaimBackoff cappedBase
    jitterMs
    delay
    consecutiveErrors := saturatingAdd consecutiveErrors 1
    delayMs := (toU64 delay.asMillis).getD maxU64
    backoffUntil := ((Instant.checkedAdd now delay.nanos).or
      (Instant.checkedAdd now maxClaimBackoff.nanos)).getD now }

/-- The arm of `run_poll_loop` for an error of `claim_next`. `randomRange lo hi` is the draw from
`lo..=hi`, `none` where it panics. -/
def claimError (randomRange : UInt64 → UInt64 → Option UInt64) (now : Instant)
    (consecutiveErrors : UInt32) : Option ClaimBackoff := do
  let jitterRange := claimErrorRange maxClaimBackoff
    (claimErrorBase pollInterval maxClaimBackoff consecutiveErrors)
  let jitterMs ← if 0 < jitterRange then randomRange 0 jitterRange else some 0
  return claimErrorWith pollInterval maxClaimBackoff now consecutiveErrors jitterMs

end Arm

/-- A draw from a range that is not empty gives a value of the range. -/
def DrawsWithin (randomRange : UInt64 → UInt64 → Option UInt64) : Prop :=
  ∀ lo hi, lo ≤ hi → ∃ x, randomRange lo hi = some x ∧ lo ≤ x ∧ x ≤ hi

/-- The end of the monotonic clock. -/
def instantEnd : ℕ := 2 ^ 63 * 1000000000

/-- What the arm computes of the count `n`: each value is the exact one, cut only where the code
means it to be, and the delay lies between its base and the cap. -/
structure ClaimBackoff.Within (pollInterval maxClaimBackoff : Span) (now : Instant) (n : UInt32)
    (b : ClaimBackoff) : Prop where
  base_eq : b.cappedBase.nanos =
    min (min (pollInterval.nanos * min (2 ^ (n.toNat - 1)) u32Max) Duration.max)
      maxClaimBackoff.nanos
  base_pos : 0 < b.cappedBase.nanos
  base_le : b.cappedBase ≤ b.delay
  delay_le : b.delay ≤ maxClaimBackoff
  delay_eq : b.delay.nanos = b.cappedBase.nanos + b.jitterMs.toNat * 1000000
  jitter_le : b.jitterMs ≤ b.jitterRange
  errors_eq : b.consecutiveErrors.toNat = min (n.toNat + 1) u32Max
  millis_eq : b.delayMs.toNat = min (b.delay.nanos / 1000000) (2 ^ 64 - 1)
  until_eq : now + b.delay.nanos < instantEnd → b.backoffUntil = now + b.delay.nanos
  until_ge : now ≤ b.backoffUntil
  until_lt : b.backoffUntil < instantEnd

section Bounds

variable {pollInterval maxClaimBackoff : Span} {n : UInt32}

theorem nanos_claimErrorBase (pollInterval maxClaimBackoff : Span) (n : UInt32) :
    (claimErrorBase pollInterval maxClaimBackoff n).nanos =
      min (min (pollInterval.nanos * min (2 ^ (n.toNat - 1)) u32Max) Duration.max)
        maxClaimBackoff.nanos := by
  rw [claimErrorBase, Span.nanos_min, Span.nanos_saturatingMul, Machine.toNat_saturatingPow,
    Machine.toNat_saturatingSub]
  rfl

/-- The base of the arm is the base of the loop. -/
theorem nanos_claimErrorBase_eq {config : WorkerConfig}
    (hpoll : config.pollInterval = pollInterval.nanos)
    (hmax : config.maxClaimBackoff = maxClaimBackoff.nanos) :
    (claimErrorBase pollInterval maxClaimBackoff n).nanos = cappedBase config n.toNat := by
  rw [nanos_claimErrorBase, cappedBase, Duration.saturatingMul, hpoll, hmax]

theorem claimErrorBase_le : (claimErrorBase pollInterval maxClaimBackoff n).nanos ≤
    maxClaimBackoff.nanos := by
  rw [nanos_claimErrorBase]
  exact Nat.min_le_right _ _

theorem claimErrorBase_pos (hpoll : 0 < pollInterval.nanos) (hmax : 0 < maxClaimBackoff.nanos) :
    0 < (claimErrorBase pollInterval maxClaimBackoff n).nanos := by
  have hpow : 0 < 2 ^ (n.toNat - 1) := Nat.two_pow_pos _
  have hfactor : 0 < min (2 ^ (n.toNat - 1)) u32Max := by
    have hu32 : 0 < u32Max := by decide
    omega
  have hproduct := Nat.mul_pos hpoll hfactor
  have hlongest : 0 < Duration.max := by decide
  rw [nanos_claimErrorBase]
  exact Nat.lt_min.mpr ⟨Nat.lt_min.mpr ⟨hproduct, hlongest⟩, hmax⟩

/-- **The base does not decrease with the count of errors.** -/
theorem claimErrorBase_mono {m : UInt32} (h : n ≤ m) :
    claimErrorBase pollInterval maxClaimBackoff n ≤
      claimErrorBase pollInterval maxClaimBackoff m := by
  have hle : n.toNat - 1 ≤ m.toNat - 1 := Nat.sub_le_sub_right h 1
  have hpow : 2 ^ (n.toNat - 1) ≤ 2 ^ (m.toNat - 1) := Nat.pow_le_pow_right (by decide) hle
  have hfactor : min (2 ^ (n.toNat - 1)) u32Max ≤ min (2 ^ (m.toNat - 1)) u32Max := by omega
  have hproduct := Nat.mul_le_mul_left pollInterval.nanos hfactor
  rw [Span.le_iff_nanos_le, nanos_claimErrorBase, nanos_claimErrorBase]
  omega

theorem toNat_min (a b : UInt64) : (min a b).toNat = min a.toNat b.toNat := by
  show (if a ≤ b then a else b).toNat = min a.toNat b.toNat
  split
  next h => rw [Nat.min_eq_left (UInt64.le_iff_toNat_le.mp h)]
  next h =>
    rw [Nat.min_eq_right (Nat.le_of_not_le fun hle => h (UInt64.le_iff_toNat_le.mpr hle))]

/-- The range of the jitter is what is left below the cap, in whole milliseconds. -/
theorem toNat_claimErrorRange (d : Span) :
    (claimErrorRange maxClaimBackoff d).toNat =
      min (if (maxClaimBackoff.nanos - d.nanos) / 1000000 < 2 ^ 64 then
        (maxClaimBackoff.nanos - d.nanos) / 1000000 else 0) (2 ^ 64 - 2) := by
  rw [claimErrorRange, toNat_min, Machine.toNat_getD_toU64]
  rfl

/-- A jitter within the range keeps the delay below the cap. -/
theorem add_jitter_le {d : Span} {jitterMs : UInt64} (hd : d.nanos ≤ maxClaimBackoff.nanos)
    (hj : jitterMs ≤ claimErrorRange maxClaimBackoff d) :
    d.nanos + jitterMs.toNat * 1000000 ≤ maxClaimBackoff.nanos := by
  have hle := UInt64.le_iff_toNat_le.mp hj
  rw [toNat_claimErrorRange] at hle
  split at hle
  · omega
  · omega

theorem checkedAdd_of_lt {now : Instant} {d : ℕ} (h : now + d < instantEnd) :
    Instant.checkedAdd now d = some (now + d) := if_pos h

/-- The deadline is reached by the delay, or the loop does without one. -/
theorem checkedAdd_or_bounds {now : Instant} (hnow : now < instantEnd) {d d' : ℕ} :
    now ≤ ((Instant.checkedAdd now d).or (Instant.checkedAdd now d')).getD now ∧
      ((Instant.checkedAdd now d).or (Instant.checkedAdd now d')).getD now < instantEnd := by
  unfold Instant.checkedAdd
  split
  next h => exact ⟨Nat.le_add_right _ _, h⟩
  · split
    next h => exact ⟨Nat.le_add_right _ _, h⟩
    · exact ⟨Nat.le_refl _, hnow⟩

/-- The sum is below the cap, so that the addition does not saturate. -/
theorem nanos_claimErrorWith_delay {now : Instant} {jitterMs : UInt64}
    (hj : jitterMs ≤ claimErrorRange maxClaimBackoff
      (claimErrorBase pollInterval maxClaimBackoff n)) :
    (claimErrorWith pollInterval maxClaimBackoff now n jitterMs).delay.nanos =
      (claimErrorBase pollInterval maxClaimBackoff n).nanos + jitterMs.toNat * 1000000 := by
  have hsum := add_jitter_le claimErrorBase_le hj
  have hlongest := maxClaimBackoff.nanos_le_max
  show ((claimErrorBase pollInterval maxClaimBackoff n).saturatingAdd
    (.fromMillis jitterMs)).nanos = _
  rw [Span.nanos_saturatingAdd, Span.nanos_fromMillis]
  omega

/-- With a jitter of its range, the arm stays within its bounds. -/
theorem claimErrorWith_within (hpoll : 0 < pollInterval.nanos) (hmax : 0 < maxClaimBackoff.nanos)
    {now : Instant} (hnow : now < instantEnd) {jitterMs : UInt64}
    (hj : jitterMs ≤ claimErrorRange maxClaimBackoff
      (claimErrorBase pollInterval maxClaimBackoff n)) :
    (claimErrorWith pollInterval maxClaimBackoff now n jitterMs).Within pollInterval
      maxClaimBackoff now n := by
  -- the sum does not saturate, since the jitter is within its range
  have hsum : (claimErrorWith pollInterval maxClaimBackoff now n jitterMs).delay.nanos =
      (claimErrorBase pollInterval maxClaimBackoff n).nanos + jitterMs.toNat * 1000000 :=
    nanos_claimErrorWith_delay hj
  constructor
  case base_eq => exact nanos_claimErrorBase _ _ _
  case base_pos => exact claimErrorBase_pos hpoll hmax
  case base_le =>
    rw [Span.le_iff_nanos_le, hsum]
    exact Nat.le_add_right _ _
  case delay_le =>
    rw [Span.le_iff_nanos_le, hsum]
    exact add_jitter_le claimErrorBase_le hj
  case delay_eq => exact hsum
  case jitter_le => exact hj
  case errors_eq => exact Machine.toNat_saturatingAdd n 1
  case millis_eq =>
    have hmaxU64 : maxU64.toNat = 2 ^ 64 - 1 := rfl
    show ((toU64 (claimErrorWith pollInterval maxClaimBackoff now n
      jitterMs).delay.asMillis).getD maxU64).toNat = _
    rw [Machine.toNat_getD_toU64, Span.val_asMillis, hmaxU64]
    split
    · omega
    · omega
  case until_eq =>
    intro hlt
    show ((Instant.checkedAdd now
      (claimErrorWith pollInterval maxClaimBackoff now n jitterMs).delay.nanos).or
      (Instant.checkedAdd now maxClaimBackoff.nanos)).getD now = _
    rw [checkedAdd_of_lt hlt, Option.some_or, Option.getD_some]
  case until_ge => exact (checkedAdd_or_bounds hnow).1
  case until_lt => exact (checkedAdd_or_bounds hnow).2

/-- The draw panics nowhere: a range of zero is not drawn from, and any other is not empty. -/
theorem claimError_eq_some (pollInterval maxClaimBackoff : Span)
    {randomRange : UInt64 → UInt64 → Option UInt64} (hrandom : DrawsWithin randomRange)
    (now : Instant) (n : UInt32) :
    ∃ jitterMs, claimError pollInterval maxClaimBackoff randomRange now n =
        some (claimErrorWith pollInterval maxClaimBackoff now n jitterMs) ∧
      jitterMs ≤ claimErrorRange maxClaimBackoff
        (claimErrorBase pollInterval maxClaimBackoff n) := by
  by_cases hpos : 0 < claimErrorRange maxClaimBackoff
      (claimErrorBase pollInterval maxClaimBackoff n)
  · obtain ⟨x, hx, -, hle⟩ := hrandom 0 _ (UInt64.le_of_lt hpos)
    refine ⟨x, ?_, hle⟩
    rw [claimError, if_pos hpos, hx]
    rfl
  · refine ⟨0, ?_, UInt64.zero_le⟩
    rw [claimError, if_neg hpos]
    rfl

end Bounds

/-! ## The loop -/

section Loop

variable {config : WorkerConfig} {pollInterval maxClaimBackoff : Span}

/-- **The loop takes the step the arm computes**, whatever is drawn. -/
theorem LoopState.onClaim_claimError (hpoll : config.pollInterval = pollInterval.nanos)
    (hmax : config.maxClaimBackoff = maxClaimBackoff.nanos) {s : LoopState} {n : UInt32}
    (hn : s.consecutiveErrors = n.toNat) {jitterMs : UInt64}
    (hj : jitterMs ≤ claimErrorRange maxClaimBackoff
      (claimErrorBase pollInterval maxClaimBackoff n)) {b : ClaimBackoff}
    (hb : b = claimErrorWith pollInterval maxClaimBackoff s.now n jitterMs) (e : RepoError) :
    s.onClaim config jitterMs.toNat (.error e) =
      some ({ s with
          consecutiveErrors := b.consecutiveErrors.toNat
          backoffUntil := some b.backoffUntil }.dropPermit.nextIteration,
        .claimBackoff e b.consecutiveErrors.toNat b.delay.nanos) := by
  -- what the arm computes in its widths is what the loop computes in the natural numbers
  have hbase := nanos_claimErrorBase_eq (n := n) hpoll hmax
  have hrange : (claimErrorRange maxClaimBackoff
      (claimErrorBase pollInterval maxClaimBackoff n)).toNat = jitterRange config n.toNat := by
    rw [toNat_claimErrorRange, hbase, ← hmax]
    rfl
  have hdelay : (claimErrorWith pollInterval maxClaimBackoff s.now n jitterMs).delay.nanos =
      backoffDelay config n.toNat jitterMs.toNat := by
    show ((claimErrorBase pollInterval maxClaimBackoff n).saturatingAdd
      (.fromMillis jitterMs)).nanos = _
    rw [Span.nanos_saturatingAdd, hbase]
    rfl
  have herrors : (claimErrorWith pollInterval maxClaimBackoff s.now n
      jitterMs).consecutiveErrors.toNat = min (n.toNat + 1) u32Max :=
    Machine.toNat_saturatingAdd n 1
  have huntil : (claimErrorWith pollInterval maxClaimBackoff s.now n jitterMs).backoffUntil =
      backoffDeadline config s.now (backoffDelay config n.toNat jitterMs.toNat) := by
    rw [← hdelay, backoffDeadline, hmax]
    rfl
  have hle := UInt64.le_iff_toNat_le.mp hj
  rw [hrange] at hle
  rw [hb, huntil, herrors, hdelay, LoopState.onClaim, hn, if_pos hle]

/-- **The delay after a claim error.** For every configuration that passes its check, every count of
errors and every jitter that is drawn, the arm panics nowhere, computes the exact values, and its
delay lies between the base, which is not zero, and the cap. The base does not decrease with the
count. -/
theorem claim_delay_within (hvalid : config.validate = .ok ())
    (hpoll : config.pollInterval = pollInterval.nanos)
    (hmax : config.maxClaimBackoff = maxClaimBackoff.nanos)
    {randomRange : UInt64 → UInt64 → Option UInt64} (hrandom : DrawsWithin randomRange)
    {now : Instant} (hnow : now < instantEnd) (n : UInt32) :
    (∃ b, claimError pollInterval maxClaimBackoff randomRange now n = some b ∧
      b.Within pollInterval maxClaimBackoff now n) ∧
    ∀ m, n ≤ m → claimErrorBase pollInterval maxClaimBackoff n ≤
      claimErrorBase pollInterval maxClaimBackoff m := by
  have hv := WorkerConfig.validate_eq_ok_iff.mp hvalid
  have hpoll' : 0 < pollInterval.nanos := by
    rw [← hpoll]
    exact Nat.lt_of_lt_of_le (by decide) hv.pollInterval
  have hmax' : 0 < maxClaimBackoff.nanos := hmax ▸ hv.maxClaimBackoff
  obtain ⟨jitterMs, hb, hj⟩ :=
    claimError_eq_some pollInterval maxClaimBackoff hrandom now n
  exact ⟨⟨_, hb, claimErrorWith_within hpoll' hmax' hnow hj⟩, fun _ => claimErrorBase_mono⟩

/-- The longest draw there is. -/
def drawHighest (lo hi : UInt64) : Option UInt64 := if lo ≤ hi then some hi else none

/-- After so many errors that the count has saturated, the default configuration waits for its cap,
and at the end of the clock as well. -/
theorem saturated_delay_within :
    (∃ b, claimError ⟨500000000, by decide⟩ ⟨30000000000, by decide⟩ drawHighest
        (instantEnd - 1) Machine.maxU32 = some b ∧
      b.Within ⟨500000000, by decide⟩ ⟨30000000000, by decide⟩ (instantEnd - 1) Machine.maxU32) ∧
    ∀ m, Machine.maxU32 ≤ m →
      claimErrorBase ⟨500000000, by decide⟩ ⟨30000000000, by decide⟩ Machine.maxU32 ≤
        claimErrorBase ⟨500000000, by decide⟩ ⟨30000000000, by decide⟩ m :=
  claim_delay_within WorkerConfig.validate_default rfl rfl
    (fun _ hi hle => ⟨hi, if_pos hle, hle, UInt64.le_refl hi⟩) (by decide) Machine.maxU32

end Loop

end IronDefer
