import IronDefer.Api.Handlers

/-!
# The standalone binary

The binary runs one engine and an HTTP server. On a shutdown signal it cancels the token of both,
and waits for them, at most as long as the configuration says; then it leaves its `block_on`, which
drops the runtime and all that runs on it. The drain of the engine may take as long, but it begins
later. So when the drain takes too long the binary is gone before the engine releases its leases,
unless the poll loop has returned at the very instant of the signal.

Time passes in whole ticks, never beyond a timer that has not fired yet; what is due at one instant
may be processed in any order.

## Main definitions

* `Serve`, `Serve.step`: a process, and what happens in it
* `Serves`: the runs of a process
* `Serve.ReleasesFirst`: however the process goes on, its engine has drained or released its leases
  when the binary leaves its `block_on`

## Main results

* `Serves.sound`: which timers have fired, and when
* `never_releases_first`: **the binary leaves first**
* `exists_left_at`: it does for every timeout and all instants of the signal and of the drain
-/

namespace IronDefer

open RowStore

/-- Where `run_serve` is: it waits for the shutdown signal; it has cancelled the token, at an
instant, and waits for the engine and the HTTP server; or it has left its `block_on`. -/
inductive ServeStage where
  | serving
  | draining (since : ℕ)
  | left (since : ℕ)
  deriving DecidableEq

/-- The instant at which the token was cancelled. -/
def ServeStage.cancelledAt : ServeStage → Option ℕ
  | .serving => none
  | .draining since | .left since => some since

/-- The binary has left its `block_on`. -/
def ServeStage.Left : ServeStage → Prop
  | .left _ => True
  | .serving | .draining _ => False

instance : DecidablePred ServeStage.Left
  | .left _ => .isTrue trivial
  | .serving | .draining _ => .isFalse id

/-- A process that runs an engine, with the instant at which the poll loop of the engine
returned. -/
structure Serve where
  fleet : Fleet
  now : ℕ
  stage : ServeStage
  drainingSince : Option ℕ
  serverDone : Bool

/-- What happens in a process. -/
inductive Serve.Event where
  /-- Time passes. -/
  | pass (n : ℕ)
  /-- The shutdown signal arrives. -/
  | signal
  /-- Something happens to the engine, or elsewhere in its fleet. -/
  | fleet (e : Fleet.Event)
  /-- The HTTP server has ended. -/
  | serverEnded
  /-- The engine and the HTTP server have been joined. -/
  | joined
  /-- The time to wait for them is over. -/
  | expired

/-- The engine has returned from `start`. -/
def Stage.Returned : Stage → Prop
  | .returned _ => True
  | _ => False

instance : DecidablePred Stage.Returned
  | .returned _ => .isTrue trivial
  | .polling | .backingOff | .claiming _ | .releasing .. | .draining | .aborting | .releasingAll _
  | .joining _ | .crashed => .isFalse id

namespace Serve

/-- A process whose engine has just been started. -/
def ready (f : Fleet) (now : ℕ) : Serve := ⟨f, now, .serving, none, false⟩

section Steps

variable (w : WorkerId) (config : WorkerConfig)

/-- When the timer of `run_serve` fires. -/
def serveDeadline (s : Serve) : Option ℕ :=
  match s.stage with
  | .draining t => some (t + config.shutdownTimeout)
  | .serving | .left _ => none

/-- When the drain timer of the engine fires. -/
def drainDeadline (s : Serve) : Option ℕ :=
  match s.fleet.workers.get w, s.drainingSince with
  | some wk, some t => if wk.stage = .draining then some (t + wk.config.shutdownTimeout) else none
  | _, _ => none

/-- The timers that have not fired yet. -/
def deadlines (s : Serve) : List ℕ := (s.serveDeadline config).toList ++ (s.drainDeadline w).toList

/-- A timer is due. -/
def Due (s : Serve) (deadline : Option ℕ) : Prop := ∃ t ∈ deadline, t ≤ s.now

instance (s : Serve) (deadline : Option ℕ) : Decidable (s.Due deadline) :=
  inferInstanceAs (Decidable (∃ t ∈ deadline, t ≤ s.now))

/-- What may happen in the fleet: the token of the engine is cancelled by the process, which does
not die, and its drain times out when its timer is due. -/
def Permits (s : Serve) : Fleet.Event → Prop
  | .worker v e => v = w → e ≠ .cancel ∧ e ≠ .crash ∧ (e = .timedOut → s.Due (s.drainDeadline w))
  | .call .. | .database _ | .start .. => True

instance (s : Serve) : DecidablePred (s.Permits w)
  | .worker v e => inferInstanceAs (Decidable (v = w → e ≠ .cancel ∧ e ≠ .crash ∧
      (e = .timedOut → s.Due (s.drainDeadline w))))
  | .call .. | .database _ | .start .. => .isTrue trivial

/-- Both tasks that `run_serve` waits for have ended. -/
def Done (s : Serve) : Prop :=
  s.serverDone = true ∧ ∃ wk ∈ s.fleet.workers.get w, wk.stage.Returned

instance (s : Serve) : Decidable (s.Done w) := inferInstanceAs (Decidable (_ ∧ ∃ wk ∈ _, _))

/-- The fleet goes on; the drain of the engine begins when its poll loop returns. -/
def follow (s : Serve) (f : Fleet) : Serve :=
  { s with
    fleet := f
    drainingSince := s.drainingSince.or
      ((f.workers.get w).bind fun wk => if wk.stage = .draining then some s.now else none) }

/-- One step of a process, where it is enabled. Nothing runs on when it has left its `block_on`. -/
def step (s : Serve) (e : Event) : Option (Serve × FleetOutput) :=
  if s.stage.Left then none else
  match e with
  | .pass n =>
    if ∀ d ∈ s.deadlines w config, s.now + n ≤ d then some ({ s with now := s.now + n }, .silent)
    else none
  | .signal =>
    match s.stage with
    | .serving => (s.fleet.step (.worker w .cancel)).map fun r =>
      ({ s with fleet := r.1, stage := .draining s.now }, r.2)
    | .draining _ | .left _ => none
  | .fleet e =>
    if s.Permits w e then (s.fleet.step e).map fun r => (s.follow w r.1, r.2) else none
  | .serverEnded => some ({ s with serverDone := true }, .silent)
  | .joined =>
    match s.stage with
    | .draining t => if s.Done w then some ({ s with stage := .left t }, .silent) else none
    | .serving | .left _ => none
  | .expired =>
    match s.stage with
    | .draining t =>
      -- the timeout polls what it waits for before it looks at the clock
      if s.Due (s.serveDeadline config) ∧ ¬ s.Done w then some ({ s with stage := .left t }, .silent)
      else none
    | .serving | .left _ => none

/-- The steps of a process, one case for each way to go. -/
inductive Step (s : Serve) : Event → Serve → FleetOutput → Prop
  | pass {n} : ¬ s.stage.Left → (∀ d ∈ s.deadlines w config, s.now + n ≤ d) →
      Step s (.pass n) { s with now := s.now + n } .silent
  | signal {f o} : s.stage = .serving → s.fleet.Step (.worker w .cancel) f o →
      Step s .signal { s with fleet := f, stage := .draining s.now } o
  | fleet {e f o} : ¬ s.stage.Left → s.Permits w e → s.fleet.Step e f o →
      Step s (.fleet e) (s.follow w f) o
  | serverEnded : ¬ s.stage.Left → Step s .serverEnded { s with serverDone := true } .silent
  | joined {t} : s.stage = .draining t → s.Done w →
      Step s .joined { s with stage := .left t } .silent
  | expired {t} : s.stage = .draining t → s.Due (s.serveDeadline config) → ¬ s.Done w →
      Step s .expired { s with stage := .left t } .silent

/-- **What can happen in a process.** -/
theorem step_of_step {s s' : Serve} {e : Event} {o : FleetOutput}
    (h : s.step w config e = some (s', o)) : s.Step w config e s' o := by
  unfold step at h
  split at h
  · cases h
  next hleft =>
  -- every event has its stage, and nothing happens once the process has been left
  cases e with
  | pass n =>
    dsimp only at h
    split at h
    next hd => cases h; exact .pass hleft hd
    · cases h
  | signal =>
    dsimp only at h
    split at h
    next hs =>
      obtain ⟨⟨f', o'⟩, hstep, heq⟩ := Option.map_eq_some_iff.mp h
      cases heq
      exact .signal hs (Fleet.step_of_step hstep)
    all_goals cases h
  | fleet e =>
    dsimp only at h
    split at h
    next hp =>
      obtain ⟨⟨f', o'⟩, hstep, heq⟩ := Option.map_eq_some_iff.mp h
      cases heq
      exact .fleet hleft hp (Fleet.step_of_step hstep)
    · cases h
  | serverEnded => cases h; exact .serverEnded hleft
  | joined =>
    dsimp only at h
    split at h
    next hs =>
      split at h
      next hd => cases h; exact .joined hs hd
      · cases h
    all_goals cases h
  | expired =>
    dsimp only at h
    split at h
    next hs =>
      split at h
      next hd => cases h; exact .expired hs hd.1 hd.2
      · cases h
    all_goals cases h

/-- How a process goes on. -/
abbrev Leads : Serve → List FleetOutput → Serve → Prop :=
  Reaches (step w config) (fun _ _ _ => True)

end Steps

end Serve

/-- The runs of a process. Its engine has just been started, with the configuration of the process,
on a database that other engines and clients may be using. -/
inductive Serves (w : WorkerId) (config : WorkerConfig) : Serve → Prop
  | ready {os f now auditLog queue kinds} : Fleets os f →
      f.workers.get w = some (.start w auditLog queue config kinds) →
      Serves w config (.ready f now)
  | next {s e s' o} : Serves w config s → s.step w config e = some (s', o) → Serves w config s'

theorem Serves.leads {w : WorkerId} {config : WorkerConfig} {s s' : Serve} {os : List FleetOutput}
    (h : Serves w config s) (hr : s.Leads w config os s') : Serves w config s' := by
  induction hr with
  | init => exact h
  | next _ _ hs ih => exact .next ih hs

/-! ## Which timers have fired -/

/-- The poll loop has not returned. -/
def Stage.Polls : Stage → Prop
  | .polling | .backingOff | .claiming _ => True
  | _ => False

/-- The drain has timed out. -/
def Stage.TimedOut : Stage → Prop
  | .aborting | .releasingAll _ | .joining (some _) | .returned (some _) => True
  | _ => False

/-- The release of all leases has been issued, and has returned. -/
def Stage.LeasesReleased : Stage → Prop
  | .joining (some _) | .returned (some _) => True
  | _ => False

/-- The drain has finished. -/
def Stage.Drained : Stage → Prop
  | .joining none | .returned none => True
  | _ => False

theorem Stage.LeasesReleased.timedOut {stage : Stage} (h : stage.LeasesReleased) :
    stage.TimedOut := by
  cases stage with
  | joining released | returned released =>
    cases released with
    | none => exact h.elim
    | some => trivial
  | _ => exact h.elim

namespace Worker

variable {wk wk' : Worker} {sv sv' : TaskServer} {e : Event} {o : FleetOutput}

/-- The poll loop does not return before the token is cancelled. -/
theorem Step.polls (h : wk.Step sv e wk' sv' o) (hcancel : e ≠ .cancel) (hcrash : e ≠ .crash)
    (hc : wk.cancelled = false) (hs : wk.stage.Polls) :
    wk'.cancelled = false ∧ wk'.stage.Polls := by
  cases h with
  | cancel => exact absurd rfl hcancel
  | crash => exact absurd rfl hcrash
  | stop hc' => rw [hc] at hc'; cases hc'
  | dropClaim _ hc' => rw [hc] at hc'; cases hc'
  | claimedLate _ hc' => rw [hc] at hc'; cases hc'
  | resume | tick | claimFailed | unclaimed | spawn => exact ⟨hc, trivial⟩
  | full | execute | missing | handled | handledAlone | report | reported => exact ⟨hc, hs⟩
  | _ hs' =>
    rw [hs'] at hs
    exact hs.elim

/-- The drain times out where it does, and nowhere else. -/
theorem Step.timedOut_or (h : wk.Step sv e wk' sv' o) (hs : wk'.stage.TimedOut) :
    wk.stage.TimedOut ∨ e = .timedOut := by
  cases h with
  | timedOut => exact .inr rfl
  | cancel | full | execute | missing | handled | handledAlone | report | reported | abort =>
    exact .inl hs
  | releaseAll hs' => rw [hs']; exact .inl trivial
  | releasedAll hs' => rw [hs']; exact .inl trivial
  | @ret released hs' =>
    rw [hs']
    cases released with
    | none => exact hs.elim
    | some => exact .inl trivial
  | _ => exact hs.elim

end Worker

namespace Serve

/-- What is known of a process and its engine: both have the same configuration; the poll loop runs
on until the token is cancelled; the binary has left its `block_on` when its timer is due, at the
latest; and where the drain of the engine has timed out, so has its timer. -/
structure Tracks (config : WorkerConfig) (s : Serve) (wk : Worker) : Prop where
  configured : wk.config = config
  polls : s.stage = .serving → wk.cancelled = false ∧ wk.stage.Polls ∧ s.drainingSince = none
  began : wk.stage = .draining → s.drainingSince ≠ none
  inTime : ∀ t₀ ∈ s.stage.cancelledAt, t₀ ≤ s.now ∧ s.now ≤ t₀ + config.shutdownTimeout
  since : ∀ t₁ ∈ s.drainingSince, t₁ ≤ s.now ∧ ∀ t₀ ∈ s.stage.cancelledAt, t₀ ≤ t₁
  timedOut : wk.stage.TimedOut → ∃ t₁ ∈ s.drainingSince, t₁ + config.shutdownTimeout ≤ s.now

/-- The engine of a process is known. -/
def Sound (w : WorkerId) (config : WorkerConfig) (s : Serve) : Prop :=
  ∃ wk, s.fleet.workers.get w = some wk ∧ s.Tracks config wk

variable {w : WorkerId} {config : WorkerConfig} {s s' : Serve} {wk wk' : Worker}

theorem mem_drainDeadline (hw : s.fleet.workers.get w = some wk) {d : ℕ}
    (h : d ∈ s.drainDeadline w) :
    ∃ t₁ ∈ s.drainingSince, d = t₁ + wk.config.shutdownTimeout := by
  unfold drainDeadline at h
  rw [hw] at h
  cases hsince : s.drainingSince with
  | none =>
    rw [hsince] at h
    cases h
  | some t₁ =>
    rw [hsince] at h
    dsimp only at h
    split at h
    · cases h
      exact ⟨t₁, rfl, rfl⟩
    · cases h

theorem drainingSince_follow {f : Fleet} (hw : f.workers.get w = some wk) :
    (s.follow w f).drainingSince =
      s.drainingSince.or (if wk.stage = .draining then some s.now else none) := by
  simp [follow, hw]

/-- The engine makes a step of its own, which the process permits. -/
theorem Tracks.step (h : s.Tracks config wk) {f : Fleet} (hw : s.fleet.workers.get w = some wk)
    (hw' : f.workers.get w = some wk') {e : Worker.Event} {sv sv' : TaskServer} {o : FleetOutput}
    (hp : s.Permits w (.worker w e)) (hs : wk.Step sv e wk' sv' o) :
    (s.follow w f).Tracks config wk' := by
  obtain ⟨hcancel, hcrash, hdrain⟩ := hp rfl
  have hsince := drainingSince_follow (s := s) hw'
  refine ⟨hs.same.2.2.2.trans h.configured, ?_, ?_, h.inTime, ?_, ?_⟩
  · intro hserving
    obtain ⟨hc, hpolls, hnone⟩ := h.polls hserving
    obtain ⟨hc', hpolls'⟩ := hs.polls hcancel hcrash hc hpolls
    have hne : wk'.stage ≠ .draining := by
      intro hdraining
      rw [hdraining] at hpolls'
      exact hpolls'
    refine ⟨hc', hpolls', ?_⟩
    rw [hsince, hnone, if_neg hne]
    rfl
  · intro hdraining
    rw [hsince, if_pos hdraining]
    cases s.drainingSince <;> exact fun hnone => nomatch hnone
  · intro t₁ ht₁
    rw [hsince] at ht₁
    cases hold : s.drainingSince with
    | some t =>
      rw [hold] at ht₁
      exact h.since t₁ (hold ▸ ht₁)
    | none =>
      -- the drain begins now, and the token has been cancelled before
      rw [hold, Option.none_or] at ht₁
      split at ht₁
      · cases ht₁
        exact ⟨Nat.le_refl _, fun t₀ ht₀ => (h.inTime t₀ ht₀).1⟩
      · cases ht₁
  · intro htimedOut
    have hkept : ∃ t₁ ∈ s.drainingSince, t₁ + config.shutdownTimeout ≤ s.now := by
      rcases hs.timedOut_or htimedOut with hbefore | rfl
      · exact h.timedOut hbefore
      · obtain ⟨d, hd, hdue⟩ := hdrain rfl
        obtain ⟨t₁, ht₁, rfl⟩ := mem_drainDeadline hw hd
        rw [h.configured] at hdue
        exact ⟨t₁, ht₁, hdue⟩
    obtain ⟨t₁, ht₁, hle⟩ := hkept
    refine ⟨t₁, ?_, hle⟩
    rw [hsince, Option.mem_def.mp ht₁]
    rfl

/-- The fleet goes on without the engine. -/
theorem Tracks.keep (h : s.Tracks config wk) {f : Fleet} (hw : f.workers.get w = some wk) :
    (s.follow w f).Tracks config wk := by
  have hsince : (s.follow w f).drainingSince = s.drainingSince := by
    rw [drainingSince_follow hw]
    cases hold : s.drainingSince with
    | some t => rfl
    | none =>
      rw [if_neg fun hdraining => h.began hdraining hold]
      rfl
  refine ⟨h.configured, ?_, ?_, h.inTime, ?_, ?_⟩ <;> rw [hsince]
  · exact h.polls
  · exact h.began
  · exact h.since
  · exact h.timedOut

/-- **One step of a process.** -/
theorem Sound.step {e : Event} {o : FleetOutput} (h : s.Sound w config)
    (hs : s.Step w config e s' o) : s'.Sound w config := by
  obtain ⟨wk, hw, h⟩ := h
  cases hs with
  | @pass n hleft hd =>
    refine ⟨wk, hw, h.configured, h.polls, h.began, ?_, ?_, ?_⟩
    · intro t₀ ht₀
      -- time does not pass beyond the deadline of the process
      have hmem : t₀ + config.shutdownTimeout ∈ s.deadlines w config := by
        cases hstage : s.stage with
        | serving => rw [hstage] at ht₀; cases ht₀
        | left t => rw [hstage] at hleft; exact absurd trivial hleft
        | draining t =>
          rw [hstage] at ht₀
          cases ht₀
          simp [deadlines, serveDeadline, hstage]
      exact ⟨Nat.le_add_right_of_le (h.inTime t₀ ht₀).1, hd _ hmem⟩
    · intro t₁ ht₁
      exact ⟨Nat.le_add_right_of_le (h.since t₁ ht₁).1, (h.since t₁ ht₁).2⟩
    · intro htimedOut
      obtain ⟨t₁, ht₁, hle⟩ := h.timedOut htimedOut
      exact ⟨t₁, ht₁, Nat.le_add_right_of_le hle⟩
  | @signal f o hserving hs =>
    obtain ⟨hc, hpolls, hnone⟩ := h.polls hserving
    -- the shutdown begins now, whatever the token does to the engine
    have hnow : ∀ wk' : Worker, wk'.stage = wk.stage → wk'.config = config →
        Tracks config { s with fleet := f, stage := .draining s.now } wk' := by
      intro wk' hstage hconfig
      refine ⟨hconfig, (fun hf => nomatch hf), ?_, ?_, ?_, ?_⟩
      · intro hdraining
        rw [← hstage, hdraining] at hpolls
        exact hpolls.elim
      · rintro t₀ ⟨⟩
        exact ⟨Nat.le_refl _, Nat.le_add_right _ _⟩
      · intro t₁ ht₁
        rw [hnone] at ht₁
        cases ht₁
      · intro htimedOut
        rw [hstage] at htimedOut
        obtain ⟨t₁, ht₁, -⟩ := h.timedOut htimedOut
        rw [hnone] at ht₁
        cases ht₁
    rcases hs.get hw with hw' | ⟨e', wk', sv, he, hstep, hw'⟩
    · exact ⟨wk, hw', hnow wk rfl h.configured⟩
    · cases he
      cases hstep
      exact ⟨_, hw', hnow _ rfl h.configured⟩
  | fleet _ hp hs =>
    rcases hs.get hw with hw' | ⟨e', wk', sv, rfl, hstep, hw'⟩
    · exact ⟨wk, hw', h.keep hw'⟩
    · exact ⟨wk', hw', h.step hw hw' hp hstep⟩
  | serverEnded => exact ⟨wk, hw, h.1, h.2, h.3, h.4, h.5, h.6⟩
  | joined hstage | expired hstage =>
    refine ⟨wk, hw, h.configured, (fun hf => nomatch hf), h.began, ?_, ?_, h.timedOut⟩
    · rintro t₀ ⟨⟩
      exact h.inTime _ (by rw [hstage]; rfl)
    · intro t₁ ht₁
      refine ⟨(h.since t₁ ht₁).1, ?_⟩
      rintro t₀ ⟨⟩
      exact (h.since t₁ ht₁).2 _ (by rw [hstage]; rfl)

/-- The instant at which the token was cancelled does not change. -/
theorem Step.cancelledAt {e : Event} {o : FleetOutput} (hs : s.Step w config e s' o) {t₀ : ℕ}
    (h : s.stage.cancelledAt = some t₀) : s'.stage.cancelledAt = some t₀ := by
  cases hs with
  | signal hstage =>
    rw [hstage] at h
    cases h
  | joined hstage | expired hstage =>
    rw [hstage] at h
    exact h
  | _ => exact h

theorem Leads.cancelledAt {os : List FleetOutput} (hr : s.Leads w config os s') {t₀ : ℕ}
    (h : s.stage.cancelledAt = some t₀) : s'.stage.cancelledAt = some t₀ := by
  induction hr with
  | init => exact h
  | next _ _ hs ih => exact (step_of_step w config hs).cancelledAt ih

end Serve

/-- **Every run of a process is sound.** -/
theorem Serves.sound {w : WorkerId} {config : WorkerConfig} {s : Serve} (h : Serves w config s) :
    s.Sound w config := by
  induction h with
  | ready _ hw =>
    refine ⟨_, hw, rfl, fun _ => ⟨rfl, trivial, rfl⟩, ?_, ?_, ?_, ?_⟩
    · exact fun hf => nomatch hf
    · exact fun t₀ ht₀ => nomatch ht₀
    · exact fun t₁ ht₁ => nomatch ht₁
    · exact fun hf => hf.elim
  | next _ hs ih => exact ih.step (Serve.step_of_step w config hs)

/-! ## Who is first -/

/-- The engine has work left that keeps it from returning: the release of a task claimed too late
has not been answered, or a dispatch of its drain is in flight. -/
def Worker.Unfinished (wk : Worker) : Prop :=
  (∃ sid task, wk.stage = .releasing sid task) ∨ wk.stage = .draining ∧ wk.inFlight ≠ []

/-- However the process goes on, the drain of its engine has finished, or the release of its leases
has been issued and has returned, when the binary leaves its `block_on`. -/
def Serve.ReleasesFirst (w : WorkerId) (config : WorkerConfig) (s : Serve) : Prop :=
  ∀ os s', s.Leads w config os s' → s'.stage.Left →
    ∀ wk, s'.fleet.workers.get w = some wk → wk.stage.Drained ∨ wk.stage.LeasesReleased

namespace Serve

variable {w : WorkerId} {config : WorkerConfig} {s : Serve} {wk : Worker}

theorem step_pass (hleft : ¬ s.stage.Left) {n : ℕ}
    (hd : ∀ d ∈ s.deadlines w config, s.now + n ≤ d) :
    s.step w config (.pass n) = some ({ s with now := s.now + n }, .silent) := by
  simp only [step, if_neg hleft, if_pos hd]

theorem step_signal {f : Fleet} {o : FleetOutput} (hs : s.stage = .serving)
    (hc : s.fleet.step (.worker w .cancel) = some (f, o)) :
    s.step w config .signal = some ({ s with fleet := f, stage := .draining s.now }, o) := by
  have hleft : ¬ s.stage.Left := by rw [hs]; exact id
  unfold step
  rw [if_neg hleft]
  simp only [hs, hc, Option.map_some]

theorem step_fleet {f : Fleet} {e : Fleet.Event} {o : FleetOutput} (hleft : ¬ s.stage.Left)
    (hp : s.Permits w e) (hf : s.fleet.step e = some (f, o)) :
    s.step w config (.fleet e) = some (s.follow w f, o) := by
  simp only [step, if_neg hleft, if_pos hp, hf, Option.map_some]

theorem step_expired {t : ℕ} (hs : s.stage = .draining t) (hdue : s.Due (s.serveDeadline config))
    (hdone : ¬ s.Done w) :
    s.step w config .expired = some ({ s with stage := .left t }, .silent) := by
  have hleft : ¬ s.stage.Left := by rw [hs]; exact id
  unfold step
  rw [if_neg hleft]
  simp only [hs]
  exact if_pos ⟨hdue, hdone⟩

theorem not_returned_of_unfinished (h : wk.Unfinished) : ¬ wk.stage.Returned := by
  rcases h with ⟨sid, task, hs⟩ | ⟨hs, -⟩ <;> rw [hs] <;> exact id

/-- The timer of the binary fires first: its engine may be as busy as before when it does. -/
theorem exists_left (h : s.Sound w config) {t₀ : ℕ} (hs : s.stage = .draining t₀)
    (hw : s.fleet.workers.get w = some wk) (hbusy : wk.Unfinished) :
    ∃ os, s.Leads w config os
      { s with now := t₀ + config.shutdownTimeout, stage := .left t₀ } := by
  obtain ⟨wk', hw', h⟩ := h
  obtain rfl := Option.some.inj (hw'.symm.trans hw)
  have ht₀ : t₀ ∈ s.stage.cancelledAt := by rw [hs]; rfl
  obtain ⟨n, hn⟩ := Nat.exists_eq_add_of_le (h.inTime t₀ ht₀).2
  have hleft : ¬ s.stage.Left := by rw [hs]; exact id
  -- time can pass up to the deadline of the binary, since the one of the drain is not earlier
  have hdeadline : ∀ d ∈ s.deadlines w config, s.now + n ≤ d := by
    intro d hd
    rw [← hn]
    rcases List.mem_append.mp hd with hd | hd <;> rw [Option.mem_toList] at hd
    · rw [serveDeadline, hs] at hd
      cases hd
      exact Nat.le_refl _
    · -- the drain has begun when the token had been cancelled
      obtain ⟨t₁, ht₁, rfl⟩ := mem_drainDeadline hw hd
      rw [h.configured]
      exact Nat.add_le_add_right ((h.since t₁ ht₁).2 t₀ ht₀) _
  have hdue : Due { s with now := s.now + n }
      (serveDeadline config { s with now := s.now + n }) := by
    refine ⟨t₀ + config.shutdownTimeout, ?_, Nat.le_of_eq hn⟩
    simp [serveDeadline, hs]
  -- the engine is still at work then
  have hdone : ¬ Done w { s with now := s.now + n } := by
    rintro ⟨-, v, hv, hreturned⟩
    obtain rfl := Option.some.inj (hw.symm.trans hv)
    exact not_returned_of_unfinished hbusy hreturned
  rw [hn]
  exact ⟨_, .next (.next .init trivial (step_pass hleft hdeadline)) trivial
    (step_expired hs hdue hdone)⟩

/-- The signal may arrive at any instant. -/
theorem exists_signalled (h : s.Sound w config) (hs : s.stage = .serving)
    (hw : s.fleet.workers.get w = some wk) {t₀ : ℕ} (hnow : s.now ≤ t₀) :
    ∃ os s', s.Leads w config os s' ∧ s'.now = t₀ ∧ s'.stage = .draining t₀ ∧
      s'.drainingSince = none ∧ s'.fleet.workers.get w = some { wk with cancelled := true } := by
  obtain ⟨wk', hw', h⟩ := h
  obtain ⟨-, -, hsince⟩ := h.polls hs
  obtain ⟨m, rfl⟩ := Nat.exists_eq_add_of_le hnow
  have hleft : ¬ s.stage.Left := by rw [hs]; exact id
  have hdeadline : ∀ d ∈ s.deadlines w config, s.now + m ≤ d := by
    intro d hd
    simp [deadlines, serveDeadline, drainDeadline, hs, hsince] at hd
  obtain ⟨hcancel, hget⟩ := Fleet.step_worker (e := .cancel) hw rfl
  exact ⟨_, _, .next (.next .init trivial (step_pass hleft hdeadline)) trivial
    (step_signal hs hcancel), rfl, rfl, hsince, hget⟩

/-- The poll loop may return at any instant from then on, up to the end of the time to wait. -/
theorem exists_stopped {t₀ t₁ : ℕ} (hs : s.stage = .draining t₀) (hsince : s.drainingSince = none)
    (hw : s.fleet.workers.get w = some wk) (hcancelled : wk.cancelled = true)
    (hpolling : wk.stage = .polling) (hle : s.now ≤ t₁)
    (htime : t₁ ≤ t₀ + config.shutdownTimeout) :
    ∃ os s', s.Leads w config os s' ∧ s'.stage = .draining t₀ ∧ s'.drainingSince = some t₁ ∧
      s'.fleet.workers.get w = some { wk with stage := .draining } := by
  obtain ⟨n, rfl⟩ := Nat.exists_eq_add_of_le hle
  have hleft : ¬ s.stage.Left := by rw [hs]; exact id
  have hdeadline : ∀ d ∈ s.deadlines w config, s.now + n ≤ d := by
    intro d hd
    simp only [deadlines, serveDeadline, drainDeadline, hs, hsince] at hd
    obtain rfl : d = t₀ + config.shutdownTimeout := by simpa using hd
    exact htime
  have hstop : wk.step s.fleet.server .stop =
      some ({ wk with stage := .draining }, s.fleet.server, .silent) := by
    simp [Worker.step, hcancelled, hpolling]
  obtain ⟨hstep, hget⟩ := Fleet.step_worker hw hstop
  have hpermits : Permits w { s with now := s.now + n } (.worker w .stop) :=
    fun _ => ⟨by simp, by simp, by simp⟩
  refine ⟨_, _, .next (.next .init trivial (step_pass hleft hdeadline)) trivial
    (step_fleet hleft hpermits hstep), hs, ?_, hget⟩
  rw [drainingSince_follow hget, if_pos rfl, hsince]
  rfl

/-- Where the engine has released its leases before the binary has left its `block_on`, both timers
were due at that very instant. -/
theorem Sound.tie (h : s.Sound w config) {t₀ : ℕ} (hs : s.stage.cancelledAt = some t₀)
    (hw : s.fleet.workers.get w = some wk) (hreleased : wk.stage.LeasesReleased) :
    s.drainingSince = some t₀ ∧ s.now = t₀ + config.shutdownTimeout := by
  obtain ⟨wk', hw', h⟩ := h
  obtain rfl := Option.some.inj (hw'.symm.trans hw)
  obtain ⟨t₁, ht₁, hdue⟩ := h.timedOut hreleased.timedOut
  have hnow := (h.inTime t₀ hs).2
  have hle := (h.since t₁ ht₁).2 t₀ hs
  obtain rfl : t₁ = t₀ := by omega
  exact ⟨ht₁, Nat.le_antisymm hnow hdue⟩

end Serve

section First

variable {w : WorkerId} {config : WorkerConfig} {s : Serve}

/-- **The binary leaves first.** When the token has been cancelled and the engine has work left, the
process may always go on so that it leaves its `block_on` before the leases are released; and where
it does not, the poll loop had returned at the instant of the signal, and the drain has timed out
and the release has been answered at the one instant at which both timers were due. -/
theorem never_releases_first (h : Serves w config s) {t₀ : ℕ} (hs : s.stage = .draining t₀)
    {wk : Worker} (hw : s.fleet.workers.get w = some wk) (hbusy : wk.Unfinished) :
    ¬ s.ReleasesFirst w config ∧
    ∀ os s', s.Leads w config os s' → s'.stage.Left →
      ∀ wk', s'.fleet.workers.get w = some wk' → wk'.stage.LeasesReleased →
        s'.drainingSince = some t₀ ∧ s'.now = t₀ + config.shutdownTimeout := by
  constructor
  · intro hfirst
    obtain ⟨os, hr⟩ := Serve.exists_left h.sound hs hw hbusy
    have hend := hfirst os _ hr trivial wk hw
    rcases hbusy with ⟨sid, task, hstage⟩ | ⟨hstage, -⟩ <;> rw [hstage] at hend
    · exact hend.elim id id
    · exact hend.elim id id
  · intro os s' hr _ wk' hw' hreleased
    have hcancelled : s'.stage.cancelledAt = some t₀ := hr.cancelledAt (by rw [hs]; rfl)
    exact (h.leads hr).sound.tie hcancelled hw' hreleased

/-- It does so for every timeout, and all instants of the signal and of the return of the poll loop
that are not further apart. -/
theorem exists_left_at (h : Serves w config s) (hs : s.stage = .serving) {wk : Worker}
    (hw : s.fleet.workers.get w = some wk) (hpolling : wk.stage = .polling)
    (hbusy : wk.inFlight ≠ []) {t₀ t₁ : ℕ} (hnow : s.now ≤ t₀) (hle : t₀ ≤ t₁)
    (htime : t₁ ≤ t₀ + config.shutdownTimeout) :
    ∃ os s' wk', s.Leads w config os s' ∧ s'.stage = .left t₀ ∧ s'.drainingSince = some t₁ ∧
      s'.fleet.workers.get w = some wk' ∧ wk'.stage = .draining := by
  obtain ⟨os₁, s₁, hr₁, hnow₁, hs₁, hsince₁, hw₁⟩ := Serve.exists_signalled h.sound hs hw hnow
  obtain ⟨os₂, s₂, hr₂, hs₂, hsince₂, hw₂⟩ :=
    Serve.exists_stopped hs₁ hsince₁ hw₁ rfl hpolling (hnow₁ ▸ hle) htime
  obtain ⟨os₃, hr₃⟩ := Serve.exists_left ((h.leads hr₁).leads hr₂).sound hs₂ hw₂ (.inr ⟨rfl, hbusy⟩)
  exact ⟨_, _, _, (hr₁.trans hr₂).trans hr₃, rfl, hsince₂, hw₂, rfl⟩

end First

/-- The sample task is submitted, and the engine of a process is started. -/
def readyMoves : List Fleet.Event :=
  serveMoves 0 (callOf (.save (sampleTask .default))) 0 1 ++ [startMove ⟨7⟩]

/-- Where the events of a process lead. -/
def Serve.after (es : List Serve.Event) : Serve :=
  ((run (Serve.step ⟨7⟩ sampleConfig) (.ready (Fleet.after readyMoves) 0) es).getD
    (.ready (Fleet.after readyMoves) 0, [])).1

theorem Serves.of_moves (es : List Serve.Event)
    (h : (run (Serve.step ⟨7⟩ sampleConfig) (.ready (Fleet.after readyMoves) 0) es).isSome) :
    Serves ⟨7⟩ sampleConfig (Serve.after es) := by
  have hready : Serves ⟨7⟩ sampleConfig (.ready (Fleet.after readyMoves) 0) :=
    .ready (Fleets.of_moves readyMoves (by decide +kernel)) (by rfl)
  have hr : Serve.Leads ⟨7⟩ sampleConfig _ _ _ :=
    Reaches.of_isSome (Admitted.of_forall (fun _ _ _ => trivial) es [] _) h
  obtain ⟨⟨s, os⟩, he⟩ := Option.isSome_iff_exists.mp h
  simpa [Serve.after, he] using hready.leads hr

/-- The engine executes the sample task when the signal arrives, and its poll loop returns one tick
later. -/
def stoppedMoves : List Serve.Event :=
  [.fleet (.worker ⟨7⟩ (.tick ⟨10⟩)), .fleet (.database (.exec 1 .all)),
    .fleet (.database (.finish 1)), .fleet (.worker ⟨7⟩ (.claimed false ⟨20⟩)),
    .fleet (.worker ⟨7⟩ (.dispatch 1 ⟨20⟩)), .pass 5, .signal, .pass 1,
    .fleet (.worker ⟨7⟩ .stop)]

/-- The handler runs on until the time to wait is over. -/
def leavingMoves : List Serve.Event :=
  stoppedMoves ++ [.pass (sampleConfig.shutdownTimeout - 1), .expired]

/-- **A lease that is not released**: the binary leaves its `block_on` while its engine drains, and
the task it executes is left running. -/
theorem left_while_draining :
    Serves ⟨7⟩ sampleConfig (Serve.after leavingMoves) ∧
    0 < sampleConfig.shutdownTimeout ∧
    (Serve.after leavingMoves).stage = .left 5 ∧
    (Serve.after leavingMoves).drainingSince = some 6 ∧
    (Serve.after leavingMoves).now = 5 + sampleConfig.shutdownTimeout ∧
    (∃ wk ∈ (Serve.after leavingMoves).fleet.workers.rows, wk.id = ⟨7⟩ ∧ wk.stage = .draining) ∧
    ∃ r ∈ (Serve.after leavingMoves).fleet.server.db.table.rows,
      r.status = .running ∧ r.claimedBy = some ⟨7⟩ :=
  ⟨Serves.of_moves _ (by decide +kernel), by decide +kernel, by decide +kernel, by decide +kernel,
    by decide +kernel, by decide +kernel, by decide +kernel⟩

/-- In the sample, the binary may leave before the leases are released. -/
theorem stopped_leaves_first : ¬ (Serve.after stoppedMoves).ReleasesFirst ⟨7⟩ sampleConfig := by
  have h : Serves ⟨7⟩ sampleConfig (Serve.after stoppedMoves) :=
    Serves.of_moves _ (by decide +kernel)
  have hwk : ∃ wk, (Serve.after stoppedMoves).fleet.workers.get ⟨7⟩ = some wk :=
    Option.isSome_iff_exists.mp (by decide +kernel)
  have hall : ∀ wk ∈ (Serve.after stoppedMoves).fleet.workers.get ⟨7⟩,
      wk.stage = .draining ∧ wk.inFlight ≠ [] := by
    decide +kernel
  have hstage : (Serve.after stoppedMoves).stage = .draining 5 := by decide +kernel
  obtain ⟨wk, hw⟩ := hwk
  exact (never_releases_first h hstage hw (.inr (hall wk hw))).1

end IronDefer
