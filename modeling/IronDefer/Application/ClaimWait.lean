import IronDefer.Application.PollLoop

/-!
# Waiting out a claim error

After an error of `claim_next` the poll loop sleeps until a deadline. It takes the deadline out of
its slot first, and sleeps in a select with two other branches: the token, which ends the loop, and
the next future of the join set. Where a future is joined before the deadline, the rest of the sleep
is lost, and the next tick of the interval claims again, which may come before the deadline.

## Main definitions

* `LoopState.CutsShort`: the join of a future before the deadline of the backoff
* `LoopState.Waiting`: the deadline has passed, or the loop sleeps until it, or the loop has ended
* `LoopState.TicksAt`: the interval ticks at an instant, for a loop that waits for it
* `LoopState.ClaimsFrom`: no claim is issued before an instant, whatever happens

## Main results

* `LoopState.Waiting.step`: a step that does not cut the sleep short keeps the loop waiting
* `LoopState.cut_short`: any spawned future can cut the sleep short
* `claim_backoff_respected_iff`: **no claim comes before the deadline where no future is joined
  before it; in every run, exactly where no future is spawned or the interval does not tick before
  the deadline**
-/

namespace IronDefer

open RowStore (run Reaches)

namespace LoopState

variable {s s' : LoopState} {d : Instant}

/-- The event joins a future in the select of a backoff whose deadline has not passed. -/
def CutsShort (s : LoopState) (ev : LoopEvent) : Prop :=
  ∃ i deadline, ev = .joinNext i ∧ s.stage = .backingOff deadline ∧ s.now < deadline

/-- The deadline has passed, or the loop sleeps until it, or the loop has ended. -/
def Waiting (d : Instant) (s : LoopState) : Prop :=
  d ≤ s.now ∨ s.stage = .backingOff d ∨ s.stage = .returned ∨ s.stage = .dropped

/-- The interval ticks at the instant, for a loop that waits for it: the tick is due, and the next
one can be set. -/
def TicksAt (config : WorkerConfig) (s : LoopState) (t : Instant) : Prop :=
  s.nextTick ≤ t ∧ Interval.nextTick config.pollInterval s.nextTick t ≠ none

/-! ## The clock -/

/-! The clock only moves where time passes, and the next tick only with a tick. -/

@[simp] theorem now_dropPermit : s.dropPermit.now = s.now := rfl

@[simp] theorem now_newGuard : s.newGuard.now = s.now := rfl

@[simp] theorem now_dropGuard : s.dropGuard.now = s.now := rfl

@[simp] theorem now_setStage (stage : LoopStage) : (s.setStage stage).now = s.now := rfl

@[simp] theorem now_nextIteration : s.nextIteration.now = s.now := by
  unfold nextIteration
  split
  · rfl
  · rfl

@[simp] theorem now_giveBack : s.giveBack.now = s.now := by
  unfold giveBack
  cases s.stage with
  | _ => rfl

@[simp] theorem nextTick_dropPermit : s.dropPermit.nextTick = s.nextTick := rfl

@[simp] theorem nextTick_newGuard : s.newGuard.nextTick = s.nextTick := rfl

@[simp] theorem nextTick_dropGuard : s.dropGuard.nextTick = s.nextTick := rfl

@[simp] theorem nextTick_setStage (stage : LoopStage) :
    (s.setStage stage).nextTick = s.nextTick := rfl

@[simp] theorem nextTick_nextIteration : s.nextIteration.nextTick = s.nextTick := by
  unfold nextIteration
  split
  · rfl
  · rfl

@[simp] theorem nextTick_giveBack : s.giveBack.nextTick = s.nextTick := by
  unfold giveBack
  cases s.stage with
  | _ => rfl

variable {config : WorkerConfig} {fromHex : String → Bool} {workerId : WorkerId} {ev : LoopEvent}
  {o : LoopOutput}

theorem now_le_of_step (h : s.step fromHex workerId config ev = some (s', o)) : s.now ≤ s'.now := by
  cases Stepped.of_step h with
  | elapse d => exact Nat.le_add_right _ _
  | dispatched hs | ended hs | torn hs | freed hs =>
    rw [advance_eq hs]
    exact Nat.le_refl _
  | _ => simp

theorem nextTick_of_step (h : s.step fromHex workerId config ev = some (s', o)) :
    s'.nextTick = s.nextTick ∨ s.TicksAt config s.now := by
  cases Stepped.of_step h with
  | elapse _ | cancel => exact .inl rfl
  | dispatched hs | ended hs | torn hs | freed hs =>
    rw [advance_eq hs]
    exact .inl rfl
  | noPermit _ hdue hnext _ | permit _ hdue hnext _ =>
    exact .inr ⟨hdue, fun hnone => by rw [hnone] at hnext; cases hnext⟩
  | _ => exact .inl (by simp)

/-! ## The wait -/

/-- Only a tick issues a claim. -/
theorem waiting_of_claimNext (h : s.step fromHex workerId config ev = some (s', .claimNext)) :
    s.stage = .waiting ∧ s.TicksAt config s.now := by
  cases Stepped.of_step h with
  | permit hs hdue hnext _ =>
    exact ⟨hs, hdue, fun hnone => by rw [hnone] at hnext; cases hnext⟩

/-- From a sleep, the loop goes to the next tick where the deadline has passed or a future is
joined; otherwise it sleeps on, or ends. -/
theorem stage_of_backingOff (hs : s.stage = .backingOff d)
    (h : s.step fromHex workerId config ev = some (s', o)) :
    d ≤ s.now ∨ s.CutsShort ev ∨ s'.stage = .backingOff d ∨ s'.stage = .returned ∨
      s'.stage = .dropped := by
  cases Stepped.of_step h with
  | elapse _ | cancel => exact .inr (.inr (.inl hs))
  | cancelSeen _ _ => exact .inr (.inr (.inr (.inl rfl)))
  | slept hs' hle =>
    cases hs.symm.trans hs'
    exact .inl hle
  | @joinedAsleep i deadline _ _ =>
    by_cases hle : d ≤ s.now
    · exact .inl hle
    · exact .inr (.inl ⟨i, d, rfl, hs, Nat.lt_of_not_le hle⟩)
  | dispatched hs₁ | ended hs₁ | torn hs₁ | freed hs₁ =>
    rw [advance_eq hs₁]
    exact .inr (.inr (.inl hs))
  | drop _ => exact .inr (.inr (.inr (.inr rfl)))
  -- the other branches are taken in other stages
  | joinedAfter _ hs' => simp [hs] at hs'
  | tickPanicked hs' _ _ | noPermit hs' _ _ _ | permit hs' _ _ _ | claimedLate hs' _
  | claimedTask hs' _ | claimedNone hs' | claimError hs' _ | spawn hs' | released hs' =>
    cases hs.symm.trans hs'

/-- A loop that has ended stays ended. -/
theorem stage_of_ended (hs : s.stage = .returned ∨ s.stage = .dropped)
    (h : s.step fromHex workerId config ev = some (s', o)) :
    s'.stage = .returned ∨ s'.stage = .dropped := by
  cases Stepped.of_step h with
  | elapse _ | cancel | joinedAfter _ _ => exact hs
  | dispatched hs₁ | ended hs₁ | torn hs₁ | freed hs₁ =>
    rw [advance_eq hs₁]
    exact hs
  | drop _ => exact .inr rfl
  -- the other branches are taken before the loop has ended
  | cancelSeen hs' _ => rcases hs' with ⟨_, hs'⟩ | hs' | hs' <;> simp [hs'] at hs
  | slept hs' _ | joinedAsleep _ hs' | tickPanicked hs' _ _ | noPermit hs' _ _ _
  | permit hs' _ _ _ | claimedLate hs' _ | claimedTask hs' _ | claimedNone hs' | claimError hs' _
  | spawn hs' | released hs' => simp [hs'] at hs

/-- **A step that does not cut the sleep short keeps the loop waiting.** -/
theorem Waiting.step (hw : s.Waiting d) (hcut : ¬ s.CutsShort ev)
    (h : s.step fromHex workerId config ev = some (s', o)) : s'.Waiting d := by
  rcases hw with hle | hs | hs
  · exact .inl (Nat.le_trans hle (now_le_of_step h))
  · rcases stage_of_backingOff hs h with hle | hcut' | hs'
    · exact .inl (Nat.le_trans hle (now_le_of_step h))
    · exact absurd hcut' hcut
    · exact .inr hs'
  · exact .inr (.inr (stage_of_ended hs h))

/-- A waiting loop issues no claim before the deadline. -/
theorem Waiting.le_of_claimNext (hw : s.Waiting d)
    (h : s.step fromHex workerId config ev = some (s', .claimNext)) : d ≤ s.now := by
  have hs := (waiting_of_claimNext h).1
  rcases hw with hle | hb | hb | hb
  · exact hle
  · exact nomatch hs.symm.trans hb
  · exact nomatch hs.symm.trans hb
  · exact nomatch hs.symm.trans hb

variable (fromHex workerId config) in
/-- No claim is issued before the instant in any run whose events are admitted. -/
def ClaimsFrom (ok : LoopState → LoopEvent → Prop) (d : Instant) (s : LoopState) : Prop :=
  ∀ os t ev u, Reaches (LoopState.step fromHex workerId config) (fun _ => ok) s os t →
    t.step fromHex workerId config ev = some (u, .claimNext) → d ≤ t.now

/-- Where no sleep is cut short, no claim comes before the deadline. -/
theorem Waiting.claimsFrom (hw : s.Waiting d) :
    s.ClaimsFrom config fromHex workerId (fun t ev => ¬ t.CutsShort ev) d := by
  intro os t ev u hr hclaim
  have ht : t.Waiting d :=
    hr.induct (P := fun _ t => t.Waiting d) hw fun _ _ _ _ _ _ ih hcut hs => ih.step hcut hs
  exact ht.le_of_claimNext hclaim

/-- Where the interval does not tick before the deadline, no claim comes before it. -/
theorem claimsFrom_of_not_ticksAt (h : ∀ t, s.now ≤ t → t < d → ¬ s.TicksAt config t) :
    s.ClaimsFrom config fromHex workerId (fun _ _ => True) d := by
  intro os t ev u hr hclaim
  -- up to the deadline there is no tick, and so the next one is still the same
  have ht : d ≤ t.now ∨ s.now ≤ t.now ∧ t.nextTick = s.nextTick := by
    refine hr.induct (P := fun _ t => d ≤ t.now ∨ s.now ≤ t.now ∧ t.nextTick = s.nextTick)
      (.inr ⟨Nat.le_refl _, rfl⟩) ?_
    rintro _ t ev t' o - ih - hstep
    have hmono := now_le_of_step hstep
    rcases ih with hle | ⟨hle, hnext⟩
    · exact .inl (Nat.le_trans hle hmono)
    rcases nextTick_of_step hstep with heq | hticks
    · exact .inr ⟨Nat.le_trans hle hmono, heq.trans hnext⟩
    · rw [TicksAt, hnext] at hticks
      by_contra hnot
      exact h t.now hle (Nat.lt_of_not_le fun hd => hnot (.inl (Nat.le_trans hd hmono))) hticks
  rcases ht with hle | ⟨hle, hnext⟩
  · exact hle
  · have hticks := (waiting_of_claimNext hclaim).2
    rw [TicksAt, hnext] at hticks
    by_contra hlt
    exact h t.now hle (Nat.lt_of_not_le hlt) hticks

/-! ## Cutting it short -/

/-- A sleeping loop without spawned futures spawns none. -/
theorem joinSet_of_backingOff (hs : s.stage = .backingOff d) (hempty : s.joinSet = [])
    (h : s.step fromHex workerId config ev = some (s', o)) : s'.joinSet = [] := by
  cases Stepped.of_step h with
  | elapse _ | cancel | slept _ _ => exact hempty
  | cancelSeen _ _ | drop _ => simpa [giveBack, hs, setStage] using hempty
  -- there is no future that could be joined or make a step
  | joinedAsleep hi _ | joinedAfter hi _ => simp [hempty] at hi
  | dispatched hs₁ | ended hs₁ | torn hs₁ | freed hs₁ => simp [advance, hempty] at hs₁
  | tickPanicked hs' _ _ | noPermit hs' _ _ _ | permit hs' _ _ _ | claimedLate hs' _
  | claimedTask hs' _ | claimedNone hs' | claimError hs' _ | spawn hs' | released hs' =>
    cases hs.symm.trans hs'

/-- Without spawned futures, the sleep lasts until its deadline. -/
theorem claimsFrom_of_joinSet_nil (hs : s.stage = .backingOff d) (hempty : s.joinSet = []) :
    s.ClaimsFrom config fromHex workerId (fun _ _ => True) d := by
  intro os t ev u hr hclaim
  have ht : t.Waiting d ∧ (t.stage = .backingOff d → t.now < d → t.joinSet = []) := by
    refine hr.induct (P := fun _ t => t.Waiting d ∧
      (t.stage = .backingOff d → t.now < d → t.joinSet = [])) ⟨.inr (.inl hs), fun _ _ => hempty⟩ ?_
    rintro _ t ev t' o - ⟨hw, hnone⟩ - ht
    rcases hw with hle | hb | hb
    · have hle' := Nat.le_trans hle (now_le_of_step ht)
      exact ⟨.inl hle', fun _ hlt => absurd hlt (Nat.not_lt.mpr hle')⟩
    · by_cases hle : d ≤ t.now
      · have hle' := Nat.le_trans hle (now_le_of_step ht)
        exact ⟨.inl hle', fun _ hlt => absurd hlt (Nat.not_lt.mpr hle')⟩
      · have hnil := hnone hb (Nat.lt_of_not_le hle)
        -- there is nothing to join
        have hcut : ¬ t.CutsShort ev := by
          rintro ⟨i, _, rfl, -, -⟩
          simp [LoopState.step, hnil] at ht
        exact ⟨Waiting.step (.inr (.inl hb)) hcut ht, fun _ _ => joinSet_of_backingOff hb hnil ht⟩
    · have hended := stage_of_ended hb ht
      refine ⟨.inr (.inr hended), fun hback => ?_⟩
      rw [hback] at hended
      rcases hended with hended | hended
      · cases hended
      · cases hended
  exact ht.1.le_of_claimNext hclaim

variable (config fromHex workerId) in
/-- The loop can wait for its next tick without time having passed. -/
def CanWake (s : LoopState) : Prop :=
  ∃ os t, Reaches (LoopState.step fromHex workerId config) (fun _ _ _ => True) s os t ∧
    t.stage = .waiting ∧ t.now = s.now ∧ t.nextTick = s.nextTick ∧ s.available ≤ t.available

theorem CanWake.of_step (h : s.step fromHex workerId config ev = some (s', o))
    (hnow : s'.now = s.now) (hnext : s'.nextTick = s.nextTick)
    (havailable : s.available ≤ s'.available)
    (hwake : s'.CanWake config fromHex workerId) : s.CanWake config fromHex workerId := by
  obtain ⟨os, t, hr, hstage, hnow', hnext', havailable'⟩ := hwake
  have hfirst : Reaches (LoopState.step fromHex workerId config) (fun _ _ _ => True) s [o] s' :=
    .next .init trivial h
  exact ⟨_, t, hfirst.trans hr, hstage, hnow'.trans hnow, hnext'.trans hnext,
    Nat.le_trans havailable havailable'⟩

theorem advance_head {x y : Spawned} {xs : List Spawned} (hx : s.joinSet = x :: xs) :
    s.advance 0 x y = some { s with joinSet := y :: xs } := by
  rw [advance, hx]
  exact if_pos rfl

/-- Any spawned future may finish at once and be joined, which ends the sleep. -/
theorem cut_short {x : Spawned} {xs : List Spawned} (hs : s.stage = .backingOff d)
    (hx : s.joinSet = x :: xs) : s.CanWake config fromHex workerId := by
  have hfinished : ∀ {s : LoopState}, s.stage = .backingOff d → s.joinSet = .finished :: xs →
      s.CanWake config fromHex workerId := by
    intro s hs hx
    have hjoin : s.step fromHex workerId config (.joinNext 0) =
        some ({ s with joinSet := xs, stage := .waiting }, .silent) := by
      simp [LoopState.step, hs, hx, setStage]
    exact ⟨_, _, .next .init trivial hjoin, rfl, rfl, rfl, Nat.le_refl _⟩
  cases x with
  | finished => exact hfinished hs hx
  | permitDropped =>
    have hended : s.step fromHex workerId config (.ended 0) =
        some ({ s with joinSet := .finished :: xs }.dropGuard, .silent) := by
      rw [LoopState.step, advance_head hx]
      rfl
    exact .of_step hended rfl rfl (Nat.le_refl _) (hfinished hs rfl)
  | guardDropped =>
    have hfreed : s.step fromHex workerId config (.freed 0) =
        some ({ s with joinSet := .finished :: xs }.dropPermit, .silent) := by
      rw [LoopState.step, advance_head hx]
      rfl
    exact .of_step hfreed rfl rfl (Nat.le_succ _) (hfinished hs rfl)
  | running =>
    -- its dispatch returns and drops the permit, and then its body ends
    have hdispatched : s.step fromHex workerId config (.dispatched 0) =
        some ({ s with joinSet := .permitDropped :: xs }.dropPermit, .silent) := by
      rw [LoopState.step, advance_head hx]
      rfl
    have hended : LoopState.step fromHex workerId config
        { s with joinSet := .permitDropped :: xs }.dropPermit (.ended 0) =
        some ({ s with joinSet := .finished :: xs }.dropPermit.dropGuard, .silent) := by
      rw [LoopState.step, advance_head rfl]
      rfl
    exact .of_step hdispatched rfl rfl (Nat.le_succ _)
      (.of_step hended rfl rfl (Nat.le_refl _) (hfinished hs rfl))

/-- A waiting loop claims at the tick where a permit is free. -/
theorem claimNext_of_ticksAt (hs : s.stage = .waiting) (ha : 0 < s.available)
    (hticks : s.TicksAt config s.now) :
    ∃ u, s.step fromHex workerId config .tick = some (u, .claimNext) := by
  obtain ⟨hdue, hnone⟩ := hticks
  obtain ⟨nextTick, hnext⟩ := Option.ne_none_iff_exists'.mp hnone
  cases hn : s.available with
  | zero => omega
  | succ n =>
    have htick : s.step fromHex workerId config .tick =
        some ({ s with
          nextTick
          joinSet := s.joinSet.filter (· ≠ Spawned.finished)
          available := n
          stage := .claiming }, .claimNext) := by
      simp only [LoopState.step, hs, hn, if_pos hdue, hnext]
    exact ⟨_, htick⟩

/-- A loop that can wait for its tick can claim at any later instant at which the interval ticks. -/
theorem CanWake.claims {t : Instant} (h : s.CanWake config fromHex workerId) (ha : 0 < s.available)
    (hle : s.now ≤ t) (hticks : s.TicksAt config t) :
    ∃ os s' u, Reaches (LoopState.step fromHex workerId config) (fun _ _ _ => True) s os s' ∧
      s'.step fromHex workerId config .tick = some (u, .claimNext) ∧ s'.now = t := by
  obtain ⟨os, w, hr, hstage, hnow, hnext, havailable⟩ := h
  have hlater : w.step fromHex workerId config (.elapse (t - s.now)) =
      some ({ w with now := w.now + (t - s.now) }, .silent) := rfl
  have hat : w.now + (t - s.now) = t := by
    rw [hnow]
    exact Nat.add_sub_cancel' hle
  have hticks' : { w with now := w.now + (t - s.now) }.TicksAt config (w.now + (t - s.now)) := by
    rwa [TicksAt, hat, hnext]
  have hclaim : ∃ u, LoopState.step fromHex workerId config
      { w with now := w.now + (t - s.now) } .tick = some (u, .claimNext) :=
    claimNext_of_ticksAt hstage (Nat.lt_of_lt_of_le ha havailable) hticks'
  obtain ⟨u, hclaim⟩ := hclaim
  exact ⟨_, _, u, hr.next trivial hlater, hclaim, hat⟩

/-- What a claim error leaves: the loop sleeps until its deadline, and its permit is free. -/
theorem backingOff_of_error {e : RepoError} {jitterMs n : ℕ} {delay : Duration}
    (h : s.step fromHex workerId config (.claimed (.error e) jitterMs) =
      some (s', .claimBackoff e n delay)) :
    s'.stage = .backingOff (backoffDeadline config s.now delay) ∧ s'.now = s.now ∧
      s'.nextTick = s.nextTick ∧ s'.joinSet = s.joinSet ∧ 0 < s'.available := by
  cases hs : s.stage with
  | claiming =>
    simp only [LoopState.step, hs, onClaim, Option.ite_none_right_eq_some] at h
    obtain ⟨-, h⟩ := h
    cases h
    exact ⟨rfl, rfl, rfl, rfl, Nat.succ_pos _⟩
  | _ => simp [LoopState.step, hs] at h

end LoopState

/-- **After a claim error, no claim comes before the deadline in any run in which no future is
joined before the deadline. In every run at all, none comes before it exactly where no future is
spawned when the error arrives, or the interval does not tick between the error and the
deadline.** -/
theorem claim_backoff_respected_iff {fromHex : String → Bool} {workerId : WorkerId}
    {config : WorkerConfig} {s s' : LoopState} {e : RepoError} {jitterMs n : ℕ} {delay : Duration}
    (herr : s.step fromHex workerId config (.claimed (.error e) jitterMs) =
      some (s', .claimBackoff e n delay)) :
    s'.ClaimsFrom config fromHex workerId (fun t ev => ¬ t.CutsShort ev)
      (backoffDeadline config s.now delay) ∧
    (s'.ClaimsFrom config fromHex workerId (fun _ _ => True)
      (backoffDeadline config s.now delay) ↔
      s.joinSet = [] ∨
        ∀ t, s.now ≤ t → t < backoffDeadline config s.now delay → ¬ s.TicksAt config t) := by
  obtain ⟨hs, hnow, hnext, hset, ha⟩ := LoopState.backingOff_of_error herr
  have hticks : ∀ t, s'.TicksAt config t ↔ s.TicksAt config t := fun t => by
    rw [LoopState.TicksAt, LoopState.TicksAt, hnext]
  refine ⟨LoopState.Waiting.claimsFrom (.inr (.inl hs)), fun h => ?_, ?_⟩
  · by_contra hnot
    obtain ⟨hne, htick⟩ := not_or.mp hnot
    obtain ⟨x, xs, hx⟩ := List.exists_cons_of_ne_nil hne
    push Not at htick
    obtain ⟨t, hle, hlt, htick⟩ := htick
    -- a future is joined at once, and the tick of the interval claims
    have hwake : s'.CanWake config fromHex workerId := LoopState.cut_short hs (hset.trans hx)
    obtain ⟨os, w, u, hr, hclaim, hat⟩ :=
      hwake.claims ha (hnow.trans_le hle) ((hticks t).mpr htick)
    have hdeadline := h os w .tick u hr hclaim
    rw [hat] at hdeadline
    exact Nat.not_lt.mpr hdeadline hlt
  · rintro (hempty | hnone)
    · exact LoopState.claimsFrom_of_joinSet_nil hs (hset.trans hempty)
    · refine LoopState.claimsFrom_of_not_ticksAt fun t hle hlt => ?_
      rw [hticks]
      exact hnone t (hnow ▸ hle) hlt

/-! ## An outage with a dispatch in flight -/

/-- The loop dispatches a task and polls again half a second later. -/
def untilOutage : List LoopEvent :=
  [.tick, .claimed (.ok (some (sampleTask .default))) 0, .spawn, .elapse 500000000, .tick]

/-- The dispatch ends ten milliseconds later, and the next tick of the interval comes. -/
def untilNextTick : List LoopEvent :=
  [.elapse 10000000, .dispatched 0, .ended 0, .joinNext 0, .elapse 490000000]

/-- A claim that fails, with twenty seconds of jitter. -/
def outage : LoopEvent := .claimed (.error rowNotFound) 20000

/-- The loop claims again half a second after the error, twenty seconds before its deadline. -/
theorem outage_claims_early : ∃ s os s' t ps u,
    run (LoopState.step (fun _ => true) sampleWorker .default) sampleLoop untilOutage =
      some (s, os) ∧
    s.step (fun _ => true) sampleWorker .default outage =
      some (s', .claimBackoff rowNotFound 1 20500000000) ∧
    backoffDeadline .default s.now 20500000000 = 21000000000 ∧
    run (LoopState.step (fun _ => true) sampleWorker .default) s' untilNextTick = some (t, ps) ∧
    t.step (fun _ => true) sampleWorker .default .tick = some (u, .claimNext) ∧
    t.cancelled = false ∧ t.now = 1000000000 := by
  have hrange : 20000 ≤ jitterRange .default 0 := by decide
  have hdelay : backoffDelay .default 0 20000 = 20500000000 := by decide
  have hdeadline : backoffDeadline .default 500000000 20500000000 = 21000000000 := by decide
  -- the loop sleeps from the error on, and its permit is free
  have herr : ∀ s : LoopState, s.stage = .claiming → s.consecutiveErrors = 0 →
      s.now = 500000000 → s.step (fun _ => true) sampleWorker .default outage =
        some ({ s with
          available := s.available + 1
          stage := .backingOff 21000000000
          consecutiveErrors := 1
          backoffUntil := none }, .claimBackoff rowNotFound 1 20500000000) := by
    intro s hs hn hnow
    simp only [outage, LoopState.step, hs, LoopState.onClaim, hn, if_pos hrange, hdelay, hnow,
      hdeadline]
    rfl
  exact ⟨_, _, _, _, _, _, rfl, herr _ rfl rfl rfl, hdeadline, rfl, rfl, rfl, rfl⟩

/-- A failed claim of a loop that has nothing in flight: half a second passes before the next. -/
theorem idle_outage_waits : ∃ s os s',
    run (LoopState.step (fun _ => true) sampleWorker .default) sampleLoop [.tick] =
      some (s, os) ∧
    s.step (fun _ => true) sampleWorker .default (.claimed (.error rowNotFound) 0) =
      some (s', .claimBackoff rowNotFound 1 500000000) ∧
    s'.ClaimsFrom .default (fun _ => true) sampleWorker (fun _ _ => True) 500000000 := by
  obtain ⟨s, os, hrun⟩ : ∃ s os,
      run (LoopState.step (fun _ => true) sampleWorker .default) sampleLoop [.tick] =
        some (s, os) := ⟨_, _, rfl⟩
  have hdeadline : backoffDeadline .default 0 500000000 = 500000000 := by decide
  have hempty : s.joinSet = [] ∧ s.now = 0 := by
    cases hrun
    exact ⟨rfl, rfl⟩
  obtain ⟨s', herr⟩ : ∃ s', s.step (fun _ => true) sampleWorker .default
      (.claimed (.error rowNotFound) 0) = some (s', .claimBackoff rowNotFound 1 500000000) := by
    cases hrun
    exact ⟨_, rfl⟩
  have hwait := (claim_backoff_respected_iff herr).2.mpr (.inl hempty.1)
  rw [hempty.2, hdeadline] at hwait
  exact ⟨s, os, s', hrun, herr, hwait⟩

end IronDefer
