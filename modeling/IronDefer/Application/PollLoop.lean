import IronDefer.Application.Observability
import IronDefer.Application.Scheduler
import IronDefer.Application.Worker
import IronDefer.RowStore.Runs
import Mathlib.Algebra.Order.BigOperators.Group.List
import Mathlib.Algebra.Order.Group.Nat
import Mathlib.Data.List.Basic

/-!
# The poll loop of a worker

A worker polls its queue at the ticks of an interval, which skips the ticks it has missed. A tick
takes a permit from a semaphore, claims a task under it, and hands the permit and a guard over the
counter of active tasks to a future spawned on a join set; a tick that claims nothing gives the
permit back. The loop and the futures it has spawned are one state here, which takes a step with
every event any of them waits for: a tick, an answer of the store, a cancellation, the end of a
dispatch, a panic, an abort.

A permit and a guard are values with a destructor. Whoever holds one gives it back where it is
dropped, and what a stage of the loop or a spawned future still holds is a function of where it
stands.

## Main definitions

* `Spawned`: a future on the join set, by what it still owns
* `Interval.nextTick`: when an interval ticks again
* `LoopStage`: where the loop stands
* `LoopState`, `LoopState.step`: the loop with its semaphore, its counter and its join set
* `runPollLoop`: the state in which the loop starts, where it does
* `LoopState.Stepped`: the branch a step has taken
* `LoopState.Accounted`: every permit and every count is held by the loop or a spawned future

## Main results

* `LoopState.Stepped.of_step`: a step takes one of the branches
* `LoopState.Accounted.step`: every step keeps the account
* `dispatches_within_concurrency`: the dispatches in flight stay within the concurrency, and nothing
  is leaked
-/

namespace IronDefer

open RowStore (Reaches)

/-! ## What is spawned -/

/-- A future on the join set, by what it still owns. It owns its permit and its guard while
`dispatch_task` runs in it. -/
inductive Spawned where
  | running
  | permitDropped
  | guardDropped
  | finished
  deriving DecidableEq, Repr

/-- The permits the future holds. It is in flight as long as it holds one. -/
def Spawned.permits : Spawned → ℕ
  | .running | .guardDropped => 1
  | .permitDropped | .finished => 0

/-- The guards over `active_tasks` the future holds. -/
def Spawned.guards : Spawned → ℕ
  | .running | .permitDropped => 1
  | .guardDropped | .finished => 0

/-! ## Waiting after an error -/

/-- A reading of the monotonic clock, in nanoseconds. -/
abbrev Instant := ℕ

/-- Addition to a reading of the clock, whose seconds are 63 bits wide. -/
def Instant.checkedAdd (now : Instant) (d : Duration) : Option Instant :=
  if now + d < 2 ^ 63 * 1000000000 then some (now + d) else none

/-- The longest span of time a `Duration` holds. -/
def Duration.max : Duration := 2 ^ 64 * 1000000000 - 1

def Duration.saturatingMul (d : Duration) (factor : ℕ) : Duration := min (d * factor) Duration.max

/-- The largest `u32`. -/
def u32Max : ℕ := 4294967295

/-- The delay before jitter after a claim error, where `consecutiveErrors` came before it. -/
def cappedBase (config : WorkerConfig) (consecutiveErrors : ℕ) : Duration :=
  min (Duration.saturatingMul config.pollInterval (min (2 ^ (consecutiveErrors - 1)) u32Max))
    config.maxClaimBackoff

/-- The most jitter, in milliseconds, that keeps the delay below its cap. -/
def jitterRange (config : WorkerConfig) (consecutiveErrors : ℕ) : ℕ :=
  let millis := (config.maxClaimBackoff - cappedBase config consecutiveErrors) / 1000000
  min (if millis < 2 ^ 64 then millis else 0) (2 ^ 64 - 2)

/-- The delay after a claim error. -/
def backoffDelay (config : WorkerConfig) (consecutiveErrors jitterMs : ℕ) : Duration :=
  min (cappedBase config consecutiveErrors + jitterMs * 1000000) Duration.max

/-- The instant until which the loop backs off. -/
def backoffDeadline (config : WorkerConfig) (now : Instant) (delay : Duration) : Instant :=
  ((Instant.checkedAdd now delay).or (Instant.checkedAdd now config.maxClaimBackoff)).getD now

/-! ## The interval -/

/-- The next tick of an interval that was to tick at `timeout` and is polled at `now`: one period
later, or, where it is polled more than five milliseconds late, at the next multiple of the period.
Where the clock has no reading for that, the first is put off for thirty years, and the second is a
panic, which is `none`. -/
def Interval.nextTick (period : Duration) (timeout now : Instant) : Option Instant :=
  if now ≤ timeout + 5000000 then
    some ((Instant.checkedAdd timeout period).getD (now + 946080000000000000))
  else if (now - timeout) % period < 2 ^ 64 then
    (Instant.checkedAdd now period).map (· - (now - timeout) % period)
  else none

/-! ## The loop -/

/-- Where the loop stands, at one of its awaits or between two calls that other threads can see. -/
inductive LoopStage where
  /-- In the select of a backoff. -/
  | backingOff (deadline : Instant)
  /-- In the select between the token and the next tick. -/
  | waiting
  /-- In the select between the token and `claim_next`. -/
  | claiming
  /-- The guard of a claimed task is counted and its future is not spawned yet. -/
  | spawning (task : TaskRecord)
  /-- In `release_lease_for_task`, after a cancellation that the claim did not see. -/
  | releasing (task : TaskRecord)
  /-- The loop has returned its join set. -/
  | returned
  /-- The loop was dropped or has unwound, and its join set with it. -/
  | dropped
  deriving DecidableEq

/-- The permits the loop itself holds. -/
def LoopStage.permits : LoopStage → ℕ
  | .claiming | .spawning _ | .releasing _ => 1
  | .backingOff _ | .waiting | .returned | .dropped => 0

/-- The guards over `active_tasks` the loop itself holds. -/
def LoopStage.guards : LoopStage → ℕ
  | .spawning _ => 1
  | .backingOff _ | .waiting | .claiming | .releasing _ | .returned | .dropped => 0

/-- The loop with the semaphore and the counter it shares with what it has spawned. A future stays
in `joinSet` until it is joined, or dropped by the runtime where the set itself has gone. The
interval ticks at `nextTick`, or as soon after it as the loop waits for it. -/
structure LoopState where
  now : Instant
  nextTick : Instant
  cancelled : Bool
  available : ℕ
  activeTasks : UInt32
  joinSet : List Spawned
  stage : LoopStage
  consecutiveErrors : ℕ
  backoffUntil : Option Instant
  deriving DecidableEq

/-- What the loop or one of its futures waits for. -/
inductive LoopEvent where
  /-- Time passes. -/
  | elapse (d : Duration)
  /-- The token is cancelled. -/
  | cancel
  /-- The select of the loop takes the branch of the token. -/
  | cancelSeen
  /-- The deadline of a backoff has passed. -/
  | slept
  /-- A future that has finished is joined: by the backoff, or by the caller once the loop has
  ended. -/
  | joinNext (i : ℕ)
  | tick
  /-- `claim_next` answers. -/
  | claimed (result : Except RepoError (Option TaskRecord)) (jitterMs : ℕ)
  | spawn
  /-- `release_lease_for_task` answers with the trace id of the task. -/
  | released (result : Except RepoError (Option String))
  /-- `dispatch_task` has returned and its future drops the permit. -/
  | dispatched (i : ℕ)
  /-- The body of the future ends and its guard is dropped. -/
  | ended (i : ℕ)
  /-- `dispatch_task` panics or is aborted, and its future is dropped where it stands: the guard, a
  local of the body, before the permit it has captured. -/
  | torn (i : ℕ)
  /-- The permit of a future that was torn is dropped. -/
  | freed (i : ℕ)
  /-- The loop is dropped or unwinds. -/
  | drop

/-- What the loop calls and reports in a step. -/
inductive LoopOutput where
  | silent
  | claimNext
  | taskClaimed (task : TaskRecord)
  | releaseLeaseForTask (id : TaskId)
  | claimBackoff (error : RepoError) (consecutiveErrors : ℕ) (delay : Duration)
  | transition (events : List StateTransitionEvent)

namespace LoopState

/-- The dispatches in flight. -/
def inFlight (s : LoopState) : ℕ := (s.joinSet.map Spawned.permits).sum

/-- The guards the spawned futures hold. -/
def guarded (s : LoopState) : ℕ := (s.joinSet.map Spawned.guards).sum

def dropPermit (s : LoopState) : LoopState := { s with available := s.available + 1 }

/-- `ActiveTaskGuard::new`. -/
def newGuard (s : LoopState) : LoopState := { s with activeTasks := s.activeTasks + 1 }

/-- The destructor of an `ActiveTaskGuard`. -/
def dropGuard (s : LoopState) : LoopState := { s with activeTasks := s.activeTasks - 1 }

def setStage (s : LoopState) (stage : LoopStage) : LoopState := { s with stage }

/-- The top of the loop: the deadline of a backoff is taken, where there is one. -/
def nextIteration (s : LoopState) : LoopState :=
  match s.backoffUntil with
  | some deadline => { s with backoffUntil := none, stage := .backingOff deadline }
  | none => { s with stage := .waiting }

/-- What the loop holds is given back where it is dropped. -/
def giveBack (s : LoopState) : LoopState :=
  match s.stage with
  | .claiming | .releasing _ => s.dropPermit
  | .spawning _ => s.dropGuard.dropPermit
  | .backingOff _ | .waiting | .returned | .dropped => s

/-- A future moves from one of its stages to another. -/
def advance (s : LoopState) (i : ℕ) (before after : Spawned) : Option LoopState :=
  if s.joinSet[i]? = some before then some { s with joinSet := s.joinSet.set i after } else none

/-- The event that tells of a task released right after it was claimed. -/
def releasedEvent (workerId : WorkerId) (task : TaskRecord) (traceId : String) :
    StateTransitionEvent where
  taskId := task.id
  fromStatus := .running
  toStatus := .pending
  queue := some task.queue
  kind := some task.kind
  traceIdHex := some traceId
  workerId := some workerId
  attempt := task.attempts.get.val

/-- An answer of `claim_next`, received under a permit. -/
def onClaim (config : WorkerConfig) (s : LoopState) (jitterMs : ℕ) :
    Except RepoError (Option TaskRecord) → Option (LoopState × LoopOutput)
  | .ok (some task) =>
    let s := { s with consecutiveErrors := 0 }
    -- a token cancelled since the select chose the answer: the task is not dispatched
    if s.cancelled then some (s.setStage (.releasing task), .releaseLeaseForTask task.id)
    else some (s.newGuard.setStage (.spawning task), .taskClaimed task)
  | .ok none => some ({ s with consecutiveErrors := 0 }.dropPermit.nextIteration, .silent)
  | .error e =>
    if jitterMs ≤ jitterRange config s.consecutiveErrors then
      let delay := backoffDelay config s.consecutiveErrors jitterMs
      let errors := min (s.consecutiveErrors + 1) u32Max
      let s := { s with
        consecutiveErrors := errors
        backoffUntil := some (backoffDeadline config s.now delay) }
      some (s.dropPermit.nextIteration, .claimBackoff e errors delay)
    else none

/-- One step of the loop or of a future it has spawned. -/
def step (fromHex : String → Bool) (workerId : WorkerId) (config : WorkerConfig) (s : LoopState) :
    LoopEvent → Option (LoopState × LoopOutput)
  | .elapse d => some ({ s with now := s.now + d }, .silent)
  | .cancel => some ({ s with cancelled := true }, .silent)
  | .cancelSeen =>
    match s.stage with
    | .backingOff _ | .waiting | .claiming =>
      if s.cancelled then some (s.giveBack.setStage .returned, .silent) else none
    | .spawning _ | .releasing _ | .returned | .dropped => none
  | .slept =>
    match s.stage with
    | .backingOff deadline =>
      if deadline ≤ s.now then some (s.setStage .waiting, .silent) else none
    | _ => none
  | .joinNext i =>
    if s.joinSet[i]? = some .finished then
      let s := { s with joinSet := s.joinSet.eraseIdx i }
      match s.stage with
      | .backingOff _ => some (s.setStage .waiting, .silent)
      | .returned | .dropped => some (s, .silent)
      | .waiting | .claiming | .spawning _ | .releasing _ => none
    else none
  | .tick =>
    match s.stage with
    | .waiting =>
      if s.nextTick ≤ s.now then
        match Interval.nextTick config.pollInterval s.nextTick s.now with
        | none => some (s.setStage .dropped, .silent)
        | some nextTick =>
          let s := { s with nextTick, joinSet := s.joinSet.filter (· ≠ Spawned.finished) }
          -- `try_acquire_owned`, and `continue` where there is no permit
          match s.available with
          | 0 => some (s.nextIteration, .silent)
          | available + 1 => some ({ s with available, stage := .claiming }, .claimNext)
      else none
    | _ => none
  | .claimed result jitterMs =>
    match s.stage with
    | .claiming => s.onClaim config jitterMs result
    | _ => none
  | .spawn =>
    match s.stage with
    | .spawning _ =>
      some ({ s with joinSet := s.joinSet ++ [Spawned.running] }.nextIteration, .silent)
    | _ => none
  | .released result =>
    match s.stage with
    | .releasing task =>
      let events := match result with
        | .ok (some traceId) => (releasedEvent workerId task traceId).emit fromHex
        | .ok none | .error _ => []
      some (s.dropPermit.setStage .returned, .transition events)
    | _ => none
  | .dispatched i => (s.advance i .running .permitDropped).map fun s => (s.dropPermit, .silent)
  | .ended i => (s.advance i .permitDropped .finished).map fun s => (s.dropGuard, .silent)
  | .torn i => (s.advance i .running .guardDropped).map fun s => (s.dropGuard, .silent)
  | .freed i => (s.advance i .guardDropped .finished).map fun s => (s.dropPermit, .silent)
  | .drop =>
    if s.stage = .dropped then none else some (s.giveBack.setStage .dropped, .silent)

/-- The state the loop starts in: the first tick of the interval is due at once. -/
def start (config : WorkerConfig) (now : Instant) (cancelled : Bool) (activeTasks : UInt32) :
    LoopState where
  now
  nextTick := now
  cancelled
  available := config.concurrency
  activeTasks
  joinSet := []
  stage := .waiting
  consecutiveErrors := 0
  backoffUntil := none

end LoopState

/-- `run_poll_loop` up to its loop. An interval of zero length panics, which is `none`. -/
def runPollLoop (config : WorkerConfig) (now : Instant) (cancelled : Bool) (activeTasks : UInt32) :
    Option (Except RepoError LoopState) :=
  if config.concurrency = 0 then
    some (.error (.invalidPayload (.validation "worker concurrency must be >= 1")))
  else if config.pollInterval = 0 then none
  else some (.ok (.start config now cancelled activeTasks))

/-! ## What a step does -/

namespace LoopState

/-- What the loop or a spawned future has done in a step, by the branch it has taken. -/
inductive Stepped (fromHex : String → Bool) (workerId : WorkerId) (config : WorkerConfig)
    (s : LoopState) : LoopEvent → LoopState → LoopOutput → Prop
  | elapse (d : Duration) :
      Stepped fromHex workerId config s (.elapse d) { s with now := s.now + d } .silent
  | cancel : Stepped fromHex workerId config s .cancel { s with cancelled := true } .silent
  | cancelSeen (hs : (∃ deadline, s.stage = .backingOff deadline) ∨ s.stage = .waiting ∨
        s.stage = .claiming) (hc : s.cancelled = true) :
      Stepped fromHex workerId config s .cancelSeen (s.giveBack.setStage .returned) .silent
  | slept {deadline : Instant} (hs : s.stage = .backingOff deadline) (hle : deadline ≤ s.now) :
      Stepped fromHex workerId config s .slept (s.setStage .waiting) .silent
  | joinedAsleep {i : ℕ} {deadline : Instant} (hi : s.joinSet[i]? = some .finished)
      (hs : s.stage = .backingOff deadline) :
      Stepped fromHex workerId config s (.joinNext i)
        ({ s with joinSet := s.joinSet.eraseIdx i }.setStage .waiting) .silent
  | joinedAfter {i : ℕ} (hi : s.joinSet[i]? = some .finished)
      (hs : s.stage = .returned ∨ s.stage = .dropped) :
      Stepped fromHex workerId config s (.joinNext i)
        { s with joinSet := s.joinSet.eraseIdx i } .silent
  | tickPanicked (hs : s.stage = .waiting) (hdue : s.nextTick ≤ s.now)
      (hnext : Interval.nextTick config.pollInterval s.nextTick s.now = none) :
      Stepped fromHex workerId config s .tick (s.setStage .dropped) .silent
  | noPermit {nextTick : Instant} (hs : s.stage = .waiting) (hdue : s.nextTick ≤ s.now)
      (hnext : Interval.nextTick config.pollInterval s.nextTick s.now = some nextTick)
      (ha : s.available = 0) :
      Stepped fromHex workerId config s .tick
        { s with
          nextTick, joinSet := s.joinSet.filter (· ≠ Spawned.finished) }.nextIteration .silent
  | permit {nextTick : Instant} {available : ℕ} (hs : s.stage = .waiting)
      (hdue : s.nextTick ≤ s.now)
      (hnext : Interval.nextTick config.pollInterval s.nextTick s.now = some nextTick)
      (ha : s.available = available + 1) :
      Stepped fromHex workerId config s .tick
        { s with
          nextTick
          joinSet := s.joinSet.filter (· ≠ Spawned.finished)
          available
          stage := .claiming }
        .claimNext
  | claimedLate {task : TaskRecord} {jitterMs : ℕ} (hs : s.stage = .claiming)
      (hc : s.cancelled = true) :
      Stepped fromHex workerId config s (.claimed (.ok (some task)) jitterMs)
        ({ s with consecutiveErrors := 0 }.setStage (.releasing task))
        (.releaseLeaseForTask task.id)
  | claimedTask {task : TaskRecord} {jitterMs : ℕ} (hs : s.stage = .claiming)
      (hc : ¬ s.cancelled = true) :
      Stepped fromHex workerId config s (.claimed (.ok (some task)) jitterMs)
        ({ s with consecutiveErrors := 0 }.newGuard.setStage (.spawning task)) (.taskClaimed task)
  | claimedNone {jitterMs : ℕ} (hs : s.stage = .claiming) :
      Stepped fromHex workerId config s (.claimed (.ok none) jitterMs)
        { s with consecutiveErrors := 0 }.dropPermit.nextIteration .silent
  | claimError {e : RepoError} {jitterMs : ℕ} (hs : s.stage = .claiming)
      (hj : jitterMs ≤ jitterRange config s.consecutiveErrors) :
      Stepped fromHex workerId config s (.claimed (.error e) jitterMs)
        { s with
          consecutiveErrors := min (s.consecutiveErrors + 1) u32Max
          backoffUntil := some (backoffDeadline config s.now
            (backoffDelay config s.consecutiveErrors jitterMs)) }.dropPermit.nextIteration
        (.claimBackoff e (min (s.consecutiveErrors + 1) u32Max)
          (backoffDelay config s.consecutiveErrors jitterMs))
  | spawn {task : TaskRecord} (hs : s.stage = .spawning task) :
      Stepped fromHex workerId config s .spawn
        { s with joinSet := s.joinSet ++ [Spawned.running] }.nextIteration .silent
  | released {task : TaskRecord} {result : Except RepoError (Option String)}
      (hs : s.stage = .releasing task) :
      Stepped fromHex workerId config s (.released result) (s.dropPermit.setStage .returned)
        (.transition (match result with
          | .ok (some traceId) => (releasedEvent workerId task traceId).emit fromHex
          | .ok none | .error _ => []))
  | dispatched {i : ℕ} {s' : LoopState} (h : s.advance i .running .permitDropped = some s') :
      Stepped fromHex workerId config s (.dispatched i) s'.dropPermit .silent
  | ended {i : ℕ} {s' : LoopState} (h : s.advance i .permitDropped .finished = some s') :
      Stepped fromHex workerId config s (.ended i) s'.dropGuard .silent
  | torn {i : ℕ} {s' : LoopState} (h : s.advance i .running .guardDropped = some s') :
      Stepped fromHex workerId config s (.torn i) s'.dropGuard .silent
  | freed {i : ℕ} {s' : LoopState} (h : s.advance i .guardDropped .finished = some s') :
      Stepped fromHex workerId config s (.freed i) s'.dropPermit .silent
  | drop (hs : s.stage ≠ .dropped) :
      Stepped fromHex workerId config s .drop (s.giveBack.setStage .dropped) .silent

section Step

variable {fromHex : String → Bool} {workerId : WorkerId} {config : WorkerConfig}
  {s s' : LoopState} {ev : LoopEvent} {o : LoopOutput}

/-- An answer of `claim_next` is taken in the stage that waits for it. -/
theorem Stepped.of_claimed {result : Except RepoError (Option TaskRecord)} {jitterMs : ℕ}
    (hs : s.stage = .claiming) (h : s.onClaim config jitterMs result = some (s', o)) :
    Stepped fromHex workerId config s (.claimed result jitterMs) s' o := by
  match result with
  | .ok (some task) =>
    simp only [onClaim] at h
    split at h
    next hc =>
      cases h
      exact .claimedLate hs hc
    next hc =>
      cases h
      exact .claimedTask hs hc
  | .ok none =>
    cases h
    exact .claimedNone hs
  | .error e =>
    simp only [onClaim, Option.ite_none_right_eq_some] at h
    obtain ⟨hj, h⟩ := h
    cases h
    exact .claimError hs hj

/-- **A step takes one of the branches.** -/
theorem Stepped.of_step (h : s.step fromHex workerId config ev = some (s', o)) :
    Stepped fromHex workerId config s ev s' o := by
  -- an event that the stage does not wait for is not enabled
  cases ev with
  | elapse d =>
    cases h
    exact .elapse d
  | cancel =>
    cases h
    exact .cancel
  | cancelSeen =>
    cases hs : s.stage with
    | backingOff deadline =>
      simp only [step, hs, Option.ite_none_right_eq_some] at h
      obtain ⟨hc, h⟩ := h
      cases h
      exact .cancelSeen (.inl ⟨deadline, hs⟩) hc
    | waiting | claiming =>
      simp only [step, hs, Option.ite_none_right_eq_some] at h
      obtain ⟨hc, h⟩ := h
      cases h
      exact .cancelSeen (.inr (by simp [hs])) hc
    | spawning _ | releasing _ | returned | dropped => simp [step, hs] at h
  | slept =>
    cases hs : s.stage with
    | backingOff deadline =>
      simp only [step, hs, Option.ite_none_right_eq_some] at h
      obtain ⟨hle, h⟩ := h
      cases h
      exact .slept hs hle
    | _ => simp [step, hs] at h
  | joinNext i =>
    simp only [step, Option.ite_none_right_eq_some] at h
    obtain ⟨hi, h⟩ := h
    split at h
    next hs =>
      cases h
      exact .joinedAsleep hi hs
    next hs =>
      cases h
      exact .joinedAfter hi (.inl hs)
    next hs =>
      cases h
      exact .joinedAfter hi (.inr hs)
    all_goals cases h
  | tick =>
    simp only [step] at h
    split at h
    next hs =>
      simp only [Option.ite_none_right_eq_some] at h
      obtain ⟨hdue, h⟩ := h
      split at h
      next hnext =>
        cases h
        exact .tickPanicked hs hdue hnext
      next nextTick hnext =>
        split at h
        next ha =>
          cases h
          exact .noPermit hs hdue hnext ha
        next available ha =>
          cases h
          exact .permit hs hdue hnext ha
    · cases h
  | claimed result jitterMs =>
    simp only [step] at h
    split at h
    next hs => exact .of_claimed hs h
    · cases h
  | spawn =>
    simp only [step] at h
    split at h
    next hs =>
      cases h
      exact .spawn hs
    · cases h
  | released result =>
    simp only [step] at h
    split at h
    next hs =>
      cases h
      exact .released hs
    · cases h
  | dispatched i =>
    obtain ⟨s₁, hs₁, h⟩ := Option.map_eq_some_iff.mp h
    cases h
    exact .dispatched hs₁
  | ended i =>
    obtain ⟨s₁, hs₁, h⟩ := Option.map_eq_some_iff.mp h
    cases h
    exact .ended hs₁
  | torn i =>
    obtain ⟨s₁, hs₁, h⟩ := Option.map_eq_some_iff.mp h
    cases h
    exact .torn hs₁
  | freed i =>
    obtain ⟨s₁, hs₁, h⟩ := Option.map_eq_some_iff.mp h
    cases h
    exact .freed hs₁
  | drop =>
    simp only [step, Option.ite_none_left_eq_some] at h
    obtain ⟨hs, h⟩ := h
    cases h
    exact .drop hs

end Step

theorem advance_eq {s s' : LoopState} {i : ℕ} {before after : Spawned}
    (h : s.advance i before after = some s') :
    s' = { s with joinSet := s.joinSet.set i after } := by
  unfold advance at h
  split at h
  · cases h
    rfl
  · cases h

end LoopState

/-! ## The account -/

section Sums

variable {α : Type} (w : α → ℕ)

theorem sum_map_set {xs : List α} {i : ℕ} {x : α} (h : xs[i]? = some x) (y : α) :
    ((xs.set i y).map w).sum + w x = (xs.map w).sum + w y := by
  induction xs generalizing i with
  | nil => simp at h
  | cons z zs ih =>
    cases i with
    | zero =>
      obtain rfl : z = x := by simpa using h
      simp only [List.set_cons_zero, List.map_cons, List.sum_cons]
      omega
    | succ i =>
      have hrest := ih (i := i) (by simpa using h)
      simp only [List.set_cons_succ, List.map_cons, List.sum_cons]
      omega

theorem sum_map_eraseIdx {xs : List α} {i : ℕ} {x : α} (h : xs[i]? = some x) :
    ((xs.eraseIdx i).map w).sum + w x = (xs.map w).sum := by
  induction xs generalizing i with
  | nil => simp at h
  | cons z zs ih =>
    cases i with
    | zero =>
      obtain rfl : z = x := by simpa using h
      simp only [List.eraseIdx_cons_zero, List.map_cons, List.sum_cons]
      omega
    | succ i =>
      have hrest := ih (i := i) (by simpa using h)
      simp only [List.eraseIdx_cons_succ, List.map_cons, List.sum_cons]
      omega

/-- What is filtered out weighs nothing. -/
theorem sum_map_filter {p : α → Bool} {xs : List α} (h : ∀ x, p x = false → w x = 0) :
    ((xs.filter p).map w).sum = (xs.map w).sum := by
  induction xs with
  | nil => rfl
  | cons x xs ih =>
    by_cases hp : p x = true
    · rw [List.filter_cons_of_pos hp, List.map_cons, List.sum_cons, ih, List.map_cons,
        List.sum_cons]
    · have hx := h x (by simpa using hp)
      rw [List.filter_cons_of_neg hp, ih, List.map_cons, List.sum_cons, hx, Nat.zero_add]

end Sums

namespace LoopState

/-- The permits that are neither in the semaphore nor with a spawned future are `permits` many, and
the counts of `active_tasks` that no spawned future answers for are `guards` many. -/
structure Holding (concurrency : ℕ) (initial : UInt32) (s : LoopState) (permits guards : ℕ) :
    Prop where
  permits_eq : s.available + s.inFlight + permits = concurrency
  guards_eq : s.activeTasks = initial + UInt32.ofNat (s.guarded + guards)

/-- Every permit and every count is held by the loop or by a spawned future. -/
def Accounted (concurrency : ℕ) (initial : UInt32) (s : LoopState) : Prop :=
  Holding concurrency initial s s.stage.permits s.stage.guards

variable {concurrency : ℕ} {initial : UInt32} {s s' : LoopState} {permits guards : ℕ}

namespace Holding

theorem dropPermit (h : Holding concurrency initial s (permits + 1) guards) :
    Holding concurrency initial s.dropPermit permits guards := by
  have hp := h.permits_eq
  refine ⟨?_, h.guards_eq⟩
  show s.available + 1 + s.inFlight + permits = concurrency
  omega

theorem newGuard (h : Holding concurrency initial s permits guards) :
    Holding concurrency initial s.newGuard permits (guards + 1) := by
  refine ⟨h.permits_eq, ?_⟩
  show s.activeTasks + 1 = initial + UInt32.ofNat (s.guarded + guards + 1)
  rw [h.guards_eq, UInt32.ofNat_add (s.guarded + guards) 1, ← UInt32.add_assoc]
  rfl

theorem dropGuard (h : Holding concurrency initial s permits (guards + 1)) :
    Holding concurrency initial s.dropGuard permits guards := by
  refine ⟨h.permits_eq, ?_⟩
  show s.activeTasks - 1 = initial + UInt32.ofNat (s.guarded + guards)
  rw [h.guards_eq, ← Nat.add_assoc, UInt32.ofNat_add, ← UInt32.add_assoc]
  exact UInt32.add_sub_cancel _ _

/-- A permit is taken from the semaphore. -/
theorem acquire {available : ℕ} (h : Holding concurrency initial s permits guards)
    (ha : s.available = available + 1) :
    Holding concurrency initial { s with available } (permits + 1) guards := by
  have hp := h.permits_eq
  refine ⟨?_, h.guards_eq⟩
  show available + s.inFlight + (permits + 1) = concurrency
  omega

/-- A spawned future gives up what it held before a step and does not hold after it. -/
theorem advance {i : ℕ} {before after : Spawned}
    (h : Holding concurrency initial s permits guards) (hs : s.advance i before after = some s')
    {p g : ℕ} (hp : after.permits + p = before.permits) (hg : after.guards + g = before.guards) :
    Holding concurrency initial s' (permits + p) (guards + g) := by
  unfold LoopState.advance at hs
  split at hs
  next hi =>
    obtain rfl := Option.some.inj hs
    have hpermits := sum_map_set Spawned.permits hi after
    have hguards := sum_map_set Spawned.guards hi after
    have hp' := h.permits_eq
    constructor
    · show s.available + ((s.joinSet.set i after).map Spawned.permits).sum + (permits + p) = _
      unfold inFlight at hp'
      omega
    · show s.activeTasks = initial + UInt32.ofNat
        (((s.joinSet.set i after).map Spawned.guards).sum + (guards + g))
      rw [h.guards_eq, guarded]
      congr 2
      omega
  · cases hs

/-- A future that has finished holds nothing, so that joining it changes nothing. -/
theorem joinNext {i : ℕ} (h : Holding concurrency initial s permits guards)
    (hi : s.joinSet[i]? = some .finished) :
    Holding concurrency initial { s with joinSet := s.joinSet.eraseIdx i } permits guards := by
  have hpermits := sum_map_eraseIdx Spawned.permits hi
  have hguards := sum_map_eraseIdx Spawned.guards hi
  have hp := h.permits_eq
  constructor
  · show s.available + ((s.joinSet.eraseIdx i).map Spawned.permits).sum + permits = _
    rw [← hp, inFlight, ← hpermits]
    rfl
  · show s.activeTasks = initial +
      UInt32.ofNat (((s.joinSet.eraseIdx i).map Spawned.guards).sum + guards)
    rw [h.guards_eq, guarded, ← hguards]
    rfl

theorem reap (h : Holding concurrency initial s permits guards) (nextTick : Instant) :
    Holding concurrency initial
      { s with nextTick, joinSet := s.joinSet.filter (· ≠ Spawned.finished) } permits guards := by
  have hfinished : ∀ x : Spawned, decide (x ≠ .finished) = false → x = .finished := fun x hx => by
    simpa using hx
  constructor
  · show s.available + ((s.joinSet.filter _).map Spawned.permits).sum + permits = _
    rw [sum_map_filter _ fun x hx => by rw [hfinished x hx]; rfl]
    exact h.permits_eq
  · show s.activeTasks = initial + UInt32.ofNat (((s.joinSet.filter _).map Spawned.guards).sum + _)
    rw [sum_map_filter _ fun x hx => by rw [hfinished x hx]; rfl]
    exact h.guards_eq

/-- A future is spawned with a permit and a guard of the loop. -/
theorem spawn (h : Holding concurrency initial s (permits + 1) (guards + 1)) :
    Holding concurrency initial { s with joinSet := s.joinSet ++ [Spawned.running] }
      permits guards := by
  have hp := h.permits_eq
  constructor
  · show s.available + ((s.joinSet ++ [Spawned.running]).map Spawned.permits).sum + permits = _
    rw [List.map_append, List.sum_append]
    show s.available + (s.inFlight + 1) + permits = concurrency
    omega
  · show s.activeTasks = initial +
      UInt32.ofNat (((s.joinSet ++ [Spawned.running]).map Spawned.guards).sum + guards)
    rw [List.map_append, List.sum_append, h.guards_eq]
    show initial + UInt32.ofNat (s.guarded + (guards + 1)) =
      initial + UInt32.ofNat (s.guarded + 1 + guards)
    congr 2
    omega

end Holding

/-- What the loop holds is dropped with it. -/
theorem Accounted.giveBack (h : Accounted concurrency initial s) :
    Holding concurrency initial s.giveBack 0 0 := by
  unfold Accounted at h
  unfold LoopState.giveBack
  cases hs : s.stage with
  | claiming | releasing =>
    rw [hs] at h
    exact h.dropPermit
  | spawning =>
    rw [hs] at h
    exact h.dropGuard.dropPermit
  | backingOff | waiting | returned | dropped =>
    rw [hs] at h
    exact h

theorem Accounted.of_nextIteration (h : Holding concurrency initial s 0 0) :
    Accounted concurrency initial s.nextIteration := by
  unfold nextIteration
  split <;> exact ⟨h.permits_eq, h.guards_eq⟩

theorem Accounted.of_setStage {stage : LoopStage} (h : Holding concurrency initial s permits guards)
    (hp : permits = stage.permits) (hg : guards = stage.guards) :
    Accounted concurrency initial (s.setStage stage) := by
  subst hp hg
  exact ⟨h.permits_eq, h.guards_eq⟩

/-- A step that moves neither permits nor guards. -/
theorem Accounted.of_eq (h : Accounted concurrency initial s) (ha : s'.available = s.available)
    (hc : s'.activeTasks = s.activeTasks) (hj : s'.joinSet = s.joinSet) (hst : s'.stage = s.stage) :
    Accounted concurrency initial s' := by
  refine ⟨?_, ?_⟩
  · rw [ha, inFlight, hj, hst]
    exact h.permits_eq
  · rw [hc, guarded, hj, hst]
    exact h.guards_eq

theorem stage_of_advance {i : ℕ} {before after : Spawned}
    (hs : s.advance i before after = some s') : s'.stage = s.stage := by
  rw [advance_eq hs]

/-- A future drops its permit. -/
theorem Accounted.dropPermit_of_advance {i : ℕ} {before after : Spawned}
    (h : Accounted concurrency initial s) (hs : s.advance i before after = some s')
    (hp : after.permits + 1 = before.permits) (hg : after.guards + 0 = before.guards) :
    Accounted concurrency initial s'.dropPermit := by
  have hloose : Holding concurrency initial s' (s.stage.permits + 1) s.stage.guards :=
    Holding.advance h hs hp hg
  rw [← stage_of_advance hs] at hloose
  exact hloose.dropPermit

/-- A future drops its guard. -/
theorem Accounted.dropGuard_of_advance {i : ℕ} {before after : Spawned}
    (h : Accounted concurrency initial s) (hs : s.advance i before after = some s')
    (hp : after.permits + 0 = before.permits) (hg : after.guards + 1 = before.guards) :
    Accounted concurrency initial s'.dropGuard := by
  have hloose : Holding concurrency initial s' s.stage.permits (s.stage.guards + 1) :=
    Holding.advance h hs hp hg
  rw [← stage_of_advance hs] at hloose
  exact hloose.dropGuard

section Step

variable {fromHex : String → Bool} {workerId : WorkerId} {config : WorkerConfig} {o : LoopOutput}

/-- The account does not see the counter of errors and the deadline. -/
theorem Holding.of_errors (h : Holding concurrency initial s permits guards) (errors : ℕ)
    (deadline : Option Instant) :
    Holding concurrency initial
      { s with consecutiveErrors := errors, backoffUntil := deadline } permits guards :=
  ⟨h.permits_eq, h.guards_eq⟩

/-- **One step keeps the account.** -/
theorem Accounted.step (h : Accounted concurrency initial s) {e : LoopEvent}
    (hstep : s.step fromHex workerId config e = some (s', o)) :
    Accounted concurrency initial s' := by
  have hheld : ∀ {stage : LoopStage}, s.stage = stage →
      Holding concurrency initial s stage.permits stage.guards := fun hst => hst ▸ h
  cases Stepped.of_step hstep with
  | elapse d => exact h.of_eq rfl rfl rfl rfl
  | cancel => exact h.of_eq rfl rfl rfl rfl
  | cancelSeen hs hc => exact .of_setStage h.giveBack rfl rfl
  | slept hs hle => exact .of_setStage (hheld hs) rfl rfl
  | joinedAsleep hi hs => exact .of_setStage ((hheld hs).joinNext hi) rfl rfl
  -- after the loop has ended its caller, or the runtime, goes through what is left
  | joinedAfter hi hs => exact h.joinNext hi
  | tickPanicked hs hdue hnext => exact .of_setStage (hheld hs) rfl rfl
  | noPermit hs hdue hnext ha => exact .of_nextIteration ((hheld hs).reap _)
  | permit hs hdue hnext ha => exact .of_setStage (((hheld hs).reap _).acquire ha) rfl rfl
  -- the permit of an answer is with the loop, in the semaphore, or with a guard on its way
  | claimedLate hs hc => exact .of_setStage ((hheld hs).of_errors 0 _) rfl rfl
  | claimedTask hs hc => exact .of_setStage ((hheld hs).of_errors 0 _).newGuard rfl rfl
  | claimedNone hs => exact .of_nextIteration ((hheld hs).of_errors 0 _).dropPermit
  | claimError hs hj => exact .of_nextIteration ((hheld hs).of_errors _ _).dropPermit
  | spawn hs => exact .of_nextIteration (hheld hs).spawn
  | released hs => exact .of_setStage (hheld hs).dropPermit rfl rfl
  | dispatched hs => exact h.dropPermit_of_advance hs rfl rfl
  | freed hs => exact h.dropPermit_of_advance hs rfl rfl
  | ended hs => exact h.dropGuard_of_advance hs rfl rfl
  | torn hs => exact h.dropGuard_of_advance hs rfl rfl
  | drop hs => exact .of_setStage h.giveBack rfl rfl

end Step

theorem accounted_start (config : WorkerConfig) (now : Instant) (cancelled : Bool)
    (activeTasks : UInt32) :
    Accounted config.concurrency activeTasks (.start config now cancelled activeTasks) :=
  ⟨rfl, (UInt32.add_zero activeTasks).symm⟩

/-- The runs of the loop, with any events at any point. -/
def Run (fromHex : String → Bool) (workerId : WorkerId) (config : WorkerConfig) :
    LoopState → List LoopOutput → LoopState → Prop :=
  Reaches (step fromHex workerId config) fun _ _ _ => True

theorem Accounted.run {fromHex : String → Bool} {workerId : WorkerId} {config : WorkerConfig}
    {os : List LoopOutput} (h : Accounted concurrency initial s)
    (hr : Run fromHex workerId config s os s') : Accounted concurrency initial s' :=
  hr.induct (P := fun _ s => Accounted concurrency initial s) h
    fun _ _ _ _ _ _ ih _ hs => ih.step hs

end LoopState

theorem runPollLoop_eq_ok_iff {config : WorkerConfig} {now : Instant} {cancelled : Bool}
    {activeTasks : UInt32} {s : LoopState} :
    runPollLoop config now cancelled activeTasks = some (.ok s) ↔
      1 ≤ config.concurrency ∧ 0 < config.pollInterval ∧
        s = .start config now cancelled activeTasks := by
  unfold runPollLoop
  split
  next h => simp [h]
  next h =>
    split
    next h' => simp [h']
    next h' =>
      constructor
      · intro he
        obtain rfl := Except.ok.inj (Option.some.inj he)
        exact ⟨Nat.pos_of_ne_zero h, Nat.pos_of_ne_zero h', rfl⟩
      · rintro ⟨-, -, rfl⟩
        rfl

/-- **A worker stays within its concurrency and leaks no permit.** In every state a run of the loop
reaches, each permit is in the semaphore, with a dispatch in flight or with the loop itself. With an
empty join set all of them are back, less the one the loop may hold, and `active_tasks` is back
where it was once the loop holds none. -/
theorem dispatches_within_concurrency {fromHex : String → Bool} {workerId : WorkerId}
    {config : WorkerConfig} {now : Instant} {cancelled : Bool} {activeTasks : UInt32}
    {s₀ s : LoopState} {os : List LoopOutput}
    (h₀ : runPollLoop config now cancelled activeTasks = some (.ok s₀))
    (h : LoopState.Run fromHex workerId config s₀ os s) :
    s.inFlight ≤ config.concurrency ∧
      s.available + s.inFlight + s.stage.permits = config.concurrency ∧
      (s.joinSet = [] → s.available + s.stage.permits = config.concurrency) ∧
      (s.joinSet = [] → s.stage.permits = 0 →
        s.available = config.concurrency ∧ s.activeTasks = activeTasks) := by
  obtain ⟨-, -, rfl⟩ := runPollLoop_eq_ok_iff.mp h₀
  have hacc := (LoopState.accounted_start config now cancelled activeTasks).run h
  have htotal := hacc.permits_eq
  have hempty : s.joinSet = [] → s.inFlight = 0 ∧ s.guarded = 0 := fun he => by
    rw [LoopState.inFlight, LoopState.guarded, he]
    exact ⟨rfl, rfl⟩
  refine ⟨by omega, htotal, ?_, ?_⟩
  · intro he
    have hnone := (hempty he).1
    omega
  · intro he hp
    obtain ⟨hnone, hguarded⟩ := hempty he
    refine ⟨by omega, ?_⟩
    -- a guard of the loop comes with a permit of the loop
    have hg : s.stage.guards = 0 := by
      cases hs : s.stage with
      | spawning =>
        rw [hs] at hp
        cases hp
      | backingOff | waiting | claiming | releasing | returned | dropped => rfl
    rw [hacc.guards_eq, hguarded, hg]
    exact UInt32.add_zero activeTasks

/-- The loop of a worker that starts at the beginning of its clock. -/
def sampleLoop : LoopState := .start .default 0 false 0

/-- A task is claimed and dispatched, its handler panics, and the loop is cancelled while it claims
the next one, half a second later. -/
def sampleShift : List LoopEvent :=
  [.tick, .claimed (.ok (some (sampleTask .default))) 0, .spawn, .elapse 500000000, .tick, .torn 0,
    .cancel, .cancelSeen, .freed 0, .joinNext 0]

def afterShift : Option (LoopState × List LoopOutput) :=
  RowStore.run (LoopState.step (fun _ => true) sampleWorker .default) sampleLoop sampleShift

theorem afterShift_isSome : afterShift.isSome := by decide

theorem shift_drained : (afterShift.get afterShift_isSome).1.available = 4 :=
  have hr : LoopState.Run (fun _ => true) sampleWorker .default sampleLoop _
      (afterShift.get afterShift_isSome).1 :=
    Reaches.of_isSome (.of_forall (fun _ _ _ => trivial) _ _ _) afterShift_isSome
  have h₀ : runPollLoop .default 0 false 0 = some (.ok sampleLoop) := rfl
  ((dispatches_within_concurrency h₀ hr).2.2.2 (by decide) (by decide)).1

end IronDefer
