import IronDefer.Application.PollLoop

/-!
# The backoff after claim errors

The poll loop waits after an error of `claim_next`, the longer the more errors there have been in a
row. The base of the delay is meant to double with every further error, up to a cap. Its exponent is
taken from a counter that is only incremented afterwards, and by a subtraction that stays at zero:
the first two errors have the same base, and every later one half of the base it is meant to have.

## Main definitions

* `claimErrors`: how many claim errors in a row a list of events ends with
* `intendedBase`: the base that is meant for the k-th error
* `BaseReached`: the base of the error before is at the cap already

## Main results

* `LoopState.errors_of_run`: the counter of the loop is the number of errors in a row
* `claim_backoff_iff`: **the base is the intended one exactly after a first error, or at the cap**
-/

namespace IronDefer

open RowStore (run)

/-- The claim errors in a row after an event, where there were `n` before it. -/
def countErrors (n : ℕ) : LoopEvent → ℕ
  | .claimed (.error _) _ => n + 1
  | .claimed (.ok _) _ => 0
  | _ => n

/-- The claim errors since the last claim that succeeded. -/
def claimErrors (evs : List LoopEvent) : ℕ := evs.foldl countErrors 0

/-- The base of the delay that is meant for the `k`-th error in a row. -/
def intendedBase (config : WorkerConfig) (k : ℕ) : Duration :=
  min (config.pollInterval * 2 ^ (k - 1)) config.maxClaimBackoff

/-- The delay of the error before the `k`-th has reached the cap, with its factor bounded as `u32`
is. -/
def BaseReached (config : WorkerConfig) (k : ℕ) : Prop :=
  config.maxClaimBackoff ≤ config.pollInterval * min (2 ^ (k - 2)) u32Max

instance (config : WorkerConfig) (k : ℕ) : Decidable (BaseReached config k) :=
  inferInstanceAs (Decidable (_ ≤ _))

/-! ## The counter -/

namespace LoopState

variable {s s' : LoopState}

/-! The parts of a step that are not about claims leave the counter alone. -/

@[simp] theorem consecutiveErrors_dropPermit :
    s.dropPermit.consecutiveErrors = s.consecutiveErrors :=
  rfl

@[simp] theorem consecutiveErrors_newGuard :
    s.newGuard.consecutiveErrors = s.consecutiveErrors := rfl

@[simp] theorem consecutiveErrors_dropGuard : s.dropGuard.consecutiveErrors = s.consecutiveErrors :=
  rfl

@[simp] theorem consecutiveErrors_setStage (stage : LoopStage) :
    (s.setStage stage).consecutiveErrors = s.consecutiveErrors := rfl

@[simp] theorem consecutiveErrors_nextIteration :
    s.nextIteration.consecutiveErrors = s.consecutiveErrors := by
  unfold nextIteration
  split
  · rfl
  · rfl

@[simp] theorem consecutiveErrors_giveBack :
    s.giveBack.consecutiveErrors = s.consecutiveErrors := by
  unfold giveBack
  cases s.stage with
  | _ => rfl

variable {fromHex : String → Bool} {workerId : WorkerId} {config : WorkerConfig}

/-- **A step of the loop keeps the counter of errors.** -/
theorem errors_step {n : ℕ} {ev : LoopEvent} {o : LoopOutput}
    (hn : s.consecutiveErrors = min n u32Max)
    (h : s.step fromHex workerId config ev = some (s', o)) :
    s'.consecutiveErrors = min (countErrors n ev) u32Max := by
  cases Stepped.of_step h with
  -- a claim that succeeds ends the row
  | claimedLate _ _ | claimedTask _ _ | claimedNone _ => simp [countErrors]
  -- an error is counted, up to the bound of the counter
  | claimError _ _ =>
    simp only [consecutiveErrors_nextIteration, consecutiveErrors_dropPermit, hn, countErrors]
    omega
  | dispatched hs | ended hs | torn hs | freed hs =>
    rw [advance_eq hs]
    exact hn
  | _ => simpa [countErrors] using hn

/-- **The counter is the number of errors in a row**, up to its bound. -/
theorem errors_of_run {n : ℕ} {evs : List LoopEvent} {os : List LoopOutput}
    (hn : s.consecutiveErrors = min n u32Max)
    (h : run (step fromHex workerId config) s evs = some (s', os)) :
    s'.consecutiveErrors = min (evs.foldl countErrors n) u32Max := by
  -- each event counts in the loop as it does in the list
  induction evs generalizing s n os with
  | nil =>
    cases h
    exact hn
  | cons ev evs ih =>
    obtain ⟨⟨s₁, o⟩, hs, hrest⟩ := Option.bind_eq_some_iff.mp h
    obtain ⟨⟨s₂, ps⟩, hrun, hs'⟩ := Option.map_eq_some_iff.mp hrest
    cases hs'
    exact ih (errors_step hn hs) hrun

end LoopState

/-! ## The base -/

theorem two_pow_le_u32Max {n : ℕ} : 2 ^ n ≤ u32Max ↔ n ≤ 31 := by
  have hbound : u32Max = 2 ^ 32 - 1 := rfl
  constructor
  · intro h
    by_contra hlt
    have hpow : 2 ^ 32 ≤ 2 ^ n := Nat.pow_le_pow_right (by decide) (by omega)
    omega
  · intro h
    have hpow : 2 ^ n ≤ 2 ^ 31 := Nat.pow_le_pow_right (by decide) h
    omega

/-- The factor does not see that the counter is bounded. -/
theorem factor_min (n : ℕ) :
    min (2 ^ (min n u32Max - 1)) u32Max = min (2 ^ (n - 1)) u32Max := by
  -- past its bound, the counter is too large for the power to matter
  rcases Nat.le_total n u32Max with h | h
  · rw [Nat.min_eq_left h]
  · have hbig : ∀ m, u32Max ≤ m → min (2 ^ (m - 1)) u32Max = u32Max := by
      intro m hm
      refine Nat.min_eq_right (Nat.le_of_lt (Nat.lt_of_not_le fun hle => ?_))
      have h31 := two_pow_le_u32Max.mp hle
      have hbound : u32Max = 4294967295 := rfl
      omega
    rw [Nat.min_eq_right h, hbig _ (Nat.le_refl _), hbig n h]

/-- The base after the first error is the intended one. After a later error it is the intended one
where the smaller one it uses has reached the cap. -/
theorem cappedBase_eq_iff {config : WorkerConfig} (hpoll : 0 < config.pollInterval)
    (hmax : config.maxClaimBackoff ≤ Duration.max) (n : ℕ) :
    cappedBase config (min n u32Max) = intendedBase config (n + 1) ↔
      n = 0 ∨ BaseReached config (n + 1) := by
  unfold cappedBase intendedBase BaseReached Duration.saturatingMul
  rw [factor_min, Nat.add_sub_cancel, Nat.add_sub_add_right n 1 1]
  generalize hp : config.pollInterval * min (2 ^ (n - 1)) u32Max = small
  -- the cap is a duration, so that a saturated product is cut at the cap anyway
  have hcap : min (min small Duration.max) config.maxClaimBackoff =
      min small config.maxClaimBackoff := by
    rw [Nat.min_assoc, Nat.min_eq_right hmax]
  rw [hcap]
  cases n with
  | zero =>
    have hsmall : small = config.pollInterval * 2 ^ 0 := by
      rw [← hp]
      rfl
    simp [hsmall]
  | succ n =>
    -- the factor is below the intended one, and so is the product
    have hfactor : min (2 ^ n) u32Max < 2 ^ (n + 1) := by
      have hpos : 0 < 2 ^ n := Nat.two_pow_pos n
      have hpow : 2 ^ (n + 1) = 2 * 2 ^ n := Nat.pow_succ'
      omega
    have hlt : small < config.pollInterval * 2 ^ (n + 1) := by
      rw [← hp]
      exact Nat.mul_lt_mul_of_pos_left hfactor hpoll
    constructor
    · intro heq
      -- a smaller product below the cap would be seen
      refine .inr (Nat.le_of_not_lt fun hbelow => ?_)
      rw [Nat.min_eq_left (Nat.le_of_lt hbelow)] at heq
      exact absurd heq (Nat.ne_of_lt (Nat.lt_min.mpr ⟨hlt, hbelow⟩))
    · rintro (hzero | hreached)
      · cases hzero
      -- both are at the cap
      · rw [Nat.min_eq_right hreached, Nat.min_eq_right (Nat.le_trans hreached (Nat.le_of_lt hlt))]

/-- **The base of the delay after the `k`-th claim error in a row is the intended one exactly where
it is the first, or the base of the error before has reached the cap.** -/
theorem claim_backoff_iff {config : WorkerConfig} {now : Instant} {cancelled : Bool}
    {activeTasks : UInt32} {s₀ s s' : LoopState}
    (h₀ : runPollLoop config now cancelled activeTasks = some (.ok s₀))
    (hmax : config.maxClaimBackoff ≤ Duration.max) {fromHex : String → Bool} {workerId : WorkerId}
    {evs : List LoopEvent} {os : List LoopOutput}
    (hrun : run (LoopState.step fromHex workerId config) s₀ evs = some (s, os)) {e : RepoError}
    {jitterMs n k : ℕ} {delay : Duration}
    (herr : s.step fromHex workerId config (.claimed (.error e) jitterMs) =
      some (s', .claimBackoff e n delay))
    (hk : claimErrors (evs ++ [.claimed (.error e) jitterMs]) = k) :
    delay = min (cappedBase config s.consecutiveErrors + jitterMs * 1000000) Duration.max ∧
    (cappedBase config s.consecutiveErrors = intendedBase config k ↔
      k = 1 ∨ BaseReached config k) := by
  obtain ⟨-, hpoll, rfl⟩ := runPollLoop_eq_ok_iff.mp h₀
  -- before the answer, the counter has the errors of the events so far
  have hcount : s.consecutiveErrors = min (claimErrors evs) u32Max :=
    LoopState.errors_of_run rfl hrun
  have hk' : k = claimErrors evs + 1 := by
    rw [← hk, claimErrors, List.foldl_append]
    rfl
  constructor
  · simp only [LoopState.step] at herr
    split at herr
    · simp only [LoopState.onClaim, Option.ite_none_right_eq_some] at herr
      obtain ⟨-, herr⟩ := herr
      cases herr
      rfl
    · cases herr
  -- the counter has not been incremented yet when the delay is computed
  · rw [hcount, hk', cappedBase_eq_iff hpoll hmax, Nat.add_eq_right]

/-! ## Two errors in a row -/

/-- A poll whose claim fails. -/
def lostClaim : LoopEvent := .claimed (.error rowNotFound) 0

/-- The loop polls, loses its claim, backs off for half a second, and polls again. -/
def untilSecond : List LoopEvent := [.tick, lostClaim, .elapse 500000000, .slept, .tick]

def runSample (evs : List LoopEvent) : Option (LoopState × List LoopOutput) :=
  run (LoopState.step (fun _ => true) sampleWorker .default) sampleLoop evs

theorem sampleLoop_start : runPollLoop .default 0 false 0 = some (.ok sampleLoop) := rfl

/-- After the first error the base is the poll interval. -/
theorem first_base : ∃ s os s', runSample [.tick] = some (s, os) ∧
    s.step (fun _ => true) sampleWorker .default lostClaim =
      some (s', .claimBackoff rowNotFound 1 500000000) ∧
    cappedBase .default s.consecutiveErrors = intendedBase .default 1 := by
  obtain ⟨s, os, hrun⟩ : ∃ s os, runSample [.tick] = some (s, os) := ⟨_, _, rfl⟩
  obtain ⟨s', herr⟩ : ∃ s', s.step (fun _ => true) sampleWorker .default lostClaim =
      some (s', .claimBackoff rowNotFound 1 500000000) := by
    cases hrun
    exact ⟨_, rfl⟩
  have hbase := claim_backoff_iff sampleLoop_start (by decide) hrun herr rfl
  exact ⟨s, os, s', hrun, herr, hbase.2.mpr (.inl rfl)⟩

/-- After the second error it still is, and not twice as long. -/
theorem second_base_same : ∃ s os s', runSample untilSecond = some (s, os) ∧
    s.step (fun _ => true) sampleWorker .default lostClaim =
      some (s', .claimBackoff rowNotFound 2 500000000) ∧
    claimErrors (untilSecond ++ [lostClaim]) = 2 ∧
    cappedBase .default s.consecutiveErrors = 500000000 ∧
    intendedBase .default 2 = 1000000000 := by
  exact ⟨_, _, _, rfl, rfl, rfl, by decide, by decide⟩

end IronDefer
