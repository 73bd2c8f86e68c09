import IronDefer.Infrastructure.Attempts
import IronDefer.Infrastructure.Audit
import IronDefer.Infrastructure.StateMachine
import IronDefer.RowStore.Grouping

/-!
# Bounded lives

A task is not executed for ever. A failure and an expired lease open it again only while it has
attempts left, and what else leads back to `pending` is asked for from outside: a release of its
lease, which a worker that shuts down makes, and a signal. The claims of a task are no more than its
maximum of attempts with its releases and its signals; its audit rows are bounded in the same way.

## Main definitions

* `timesOf`: how often a task has met actions of a kind
* `claimsOf`, `releasesOf`, `signalsOf`: how often it was claimed, released and signalled

## Main results

* `Runs.history_eq_cons`: a task begins with its submission, with all its attempts left
* `Runs.amortized`: what is left of a life pays for its history
* `life_bounded`: **claims and status changes of a task are bounded**
-/

namespace IronDefer

open RowStore

/-- How often a task has met actions of a kind. -/
def timesOf (p : Action → Bool) (id : TaskId) (os : List Outcome) : ℕ :=
  (history id os).countP fun x => p x.action

def claimsOf (id : TaskId) (os : List Outcome) : ℕ := timesOf Action.isClaim id os

def releasesOf (id : TaskId) (os : List Outcome) : ℕ := timesOf (fun a => a = .release) id os

def signalsOf (id : TaskId) (os : List Outcome) : ℕ := timesOf (fun a => a = .signal) id os

section Runs

variable {os : List Outcome} {db : System} {id : TaskId} {r : TaskRow}

/-- **A task begins with its submission**: pending, with no attempt made. -/
theorem Runs.history_eq_cons (h : Runs Enqueuing .empty os db) (hr : db.table.get id = some r) :
    ∃ x xs, history id os = x :: xs ∧ x.action = .submit ∧ x.change.old = none ∧
      x.change.new.status = .pending ∧ x.change.new.attempts.val = 0 ∧
      x.change.new.maxAttempts.val = r.maxAttempts.val ∧
      Linked (some x.change.new) (xs.map Entry.change) (some r) := by
  have hlink := h.history_linked id
  rw [hr] at hlink
  cases hhist : history id os with
  | nil =>
    rw [hhist] at hlink
    cases hlink
  | cons x xs =>
    rw [hhist] at hlink
    have hx : x ∈ history id os := hhist ▸ List.mem_cons_self
    have hold : x.change.old = none := hlink.1
    obtain ⟨task, htask, lastError, hnew⟩ := (h.caused id x hx).of_none hold
    have hfresh := (h.called (P := fun c => c.op.Enqueues) (fun _ _ _ _ _ hok => hok) id x hx task
      htask).fresh
    have hsplit : history id os = [] ++ x :: xs := hhist
    obtain ⟨r', hr', hpath⟩ := h.path_after hsplit
    obtain rfl : r' = r := Option.some.inj (hr'.symm.trans hr)
    refine ⟨x, xs, rfl, by rw [Entry.action, hold]; rfl, hold, ?_, ?_, ?_, hlink.2⟩
    · rw [hnew]
      exact hfresh.status
    · rw [hnew]
      exact congrArg (fun n : AttemptCount => n.get.val) hfresh.attempts
    · exact hpath.maxAttempts_eq.symm

/-- A change after the submission is a step of the life of its task. -/
theorem Runs.step_of_linked (h : Runs Enqueuing .empty os db) {xs : List Entry} {v : TaskRow}
    {o : Option TaskRow} (hsub : ∀ y ∈ xs, y ∈ history id os)
    (hlink : Linked (some v) (xs.map Entry.change) o) : ∀ y ∈ xs, ∃ w, y.change.old = some w ∧
      Life.Step (some w.life) y.action y.change.new.life := by
  intro y hy
  obtain ⟨-, hold⟩ := hlink.keeps (P := fun o => o.isSome) rfl fun _ _ _ => rfl
  obtain ⟨w, hw⟩ := Option.isSome_iff_exists.mp (hold _ (List.mem_map_of_mem hy))
  have hstep := (h.caused id y (hsub y hy)).step fun hnone => by rw [hw] at hnone; cases hnone
  rw [hw] at hstep
  exact ⟨w, hw, by rw [Entry.action, hw]; exact hstep⟩

/-- **What is left of a life pays for its history**: for any potential of lives that pays for what
each action costs, but for what releases and signals are charged with. -/
theorem Runs.amortized (h : Runs Enqueuing .empty os db) {xs : List Entry} {v : TaskRow}
    {o : Option TaskRow} (hsub : ∀ y ∈ xs, y ∈ history id os)
    (hlink : Linked (some v) (xs.map Entry.change) o) (left : Life → ℕ) (costs : Action → Bool)
    {release signal : ℕ} (hpays : ∀ l a l', Life.Step (some l) a l' →
      left l' + (if costs a = true then 1 else 0) ≤ left l + Life.chargeOf release signal a) :
    xs.countP (fun y => costs y.action) ≤ left v.life +
      (release * xs.countP (fun y => decide (y.action = .release)) +
        signal * xs.countP fun y => decide (y.action = .signal)) := by
  have hsum := hlink.amortized (fun o => o.elim 0 fun w => left w.life)
    (fun y => if costs y.action = true then 1 else 0)
    (fun y => Life.chargeOf release signal y.action) fun y hy => by
      obtain ⟨w, hw, hstep⟩ := h.step_of_linked hsub hlink y hy
      rw [hw]
      exact hpays _ _ _ hstep
  have hcharge : (xs.map fun y => Life.chargeOf release signal y.action).sum =
      release * xs.countP (fun y => decide (y.action = .release)) +
        signal * xs.countP fun y => decide (y.action = .signal) := by
    simp only [Life.chargeOf, List.sum_map_add, ← sum_weights, decide_eq_true_eq]
  rw [hcharge, sum_weights, Nat.one_mul] at hsum
  exact (Nat.le_add_left _ _).trans hsum

/-- The status changes of a task are its actions, but for those that concern nothing of its life. -/
theorem Runs.length_statusChanges (h : Runs Enqueuing .empty os db)
    (hr : db.table.get id = some r) :
    (statusChanges id os).length = timesOf (fun a => a ≠ .touch) id os := by
  obtain ⟨x, xs, hhist, hsubmit, hold, -, -, -, hlink⟩ := h.history_eq_cons hr
  have hsub : ∀ y ∈ xs, y ∈ history id os := fun y hy => hhist ▸ List.mem_cons_of_mem _ hy
  have hsteps := h.step_of_linked hsub hlink
  rw [statusChanges, ← map_change_history, timesOf, movesOf, List.map_map,
    ← List.countP_eq_length_filter, List.countP_map, hhist]
  apply List.countP_congr
  intro y hy
  rw [Function.comp_apply, Function.comp_apply, decide_eq_true_iff, decide_eq_true_iff]
  change y.change.old.map TaskRow.statusText ≠ some y.change.new.statusText ↔ y.action ≠ .touch
  rcases List.mem_cons.mp hy with rfl | hy
  · rw [hold, hsubmit]
    simp
  · obtain ⟨w, hw, hstep⟩ := hsteps y hy
    rw [hw, Option.map_some, ne_eq, Option.some.injEq]
    change ¬w.status.asStr = y.change.new.status.asStr ↔ y.action ≠ .touch
    rw [TaskStatus.asStr_injective.eq_iff]
    constructor
    · rintro hne htouch
      rw [htouch] at hstep
      generalize hl : y.change.new.life = l at hstep
      cases hstep
      exact hne (congrArg Life.status hl).symm
    · exact fun hne heq => hstep.status_ne hne heq.symm

end Runs

/-- **Claims and status changes of a task are bounded.** In every run from the empty store with the
scheduler's submissions, whatever fails, expires and is recovered: a task is claimed at most as
often as its maximum of attempts, its releases and its signals together allow, and changes its
status, its submission included, at most two times for each attempt, each release and the last one,
and three times for each signal. -/
theorem life_bounded {os : List Outcome} {db : System} (h : Runs Enqueuing .empty os db)
    {id : TaskId} {r : TaskRow} (hr : db.table.get id = some r) :
    (claimsOf id os : ℤ) ≤ r.maxAttempts.val + releasesOf id os + signalsOf id os ∧
      ((statusChanges id os).length : ℤ) ≤
        2 * r.maxAttempts.val + 2 + 2 * releasesOf id os + 3 * signalsOf id os := by
  have hchanges := h.length_statusChanges hr
  obtain ⟨x, xs, hhist, hsubmit, -, hstatus, hattempts, hmax, hlink⟩ := h.history_eq_cons hr
  have hsub : ∀ y ∈ xs, y ∈ history id os := fun y hy => hhist ▸ List.mem_cons_of_mem _ hy
  have hvalid : r.Valid := h.valid.1 r (Table.get_eq_some hr).1
  have hpos : 1 ≤ r.maxAttempts.val := hvalid.pos
  -- the submission is no claim, no release and no signal
  have htimes : ∀ p : Action → Bool, timesOf p id os =
      xs.countP (fun y => p y.action) + if p .submit = true then 1 else 0 := by
    intro p
    rw [timesOf, hhist, List.countP_cons, hsubmit]
  have hrest : x.change.new.life.rest = r.maxAttempts.val.toNat := by
    change (x.change.new.maxAttempts.val - x.change.new.attempts.val).toNat = _
    rw [hattempts, hmax, Int.sub_zero]
  have hclaims := h.amortized hsub hlink Life.claimsLeft Action.isClaim
    fun l a l' hstep => hstep.claimsLeft_le
  have hmoves := h.amortized hsub hlink Life.movesLeft (fun a => a ≠ .touch)
    fun l a l' hstep => by simpa using hstep.movesLeft_le
  have hclaimsLeft : x.change.new.life.claimsLeft = max 1 r.maxAttempts.val.toNat := by
    rw [Life.claimsLeft, show x.change.new.life.status = .pending from hstatus, hrest]
  have hmovesLeft : x.change.new.life.movesLeft = max 3 (2 * r.maxAttempts.val.toNat + 1) := by
    rw [Life.movesLeft, show x.change.new.life.status = .pending from hstatus, hrest]
  have hclaimed : claimsOf id os = xs.countP fun y => y.action.isClaim := htimes Action.isClaim
  have hreleased : releasesOf id os = xs.countP fun y => decide (y.action = .release) :=
    htimes fun a => a = .release
  have hsignalled : signalsOf id os = xs.countP fun y => decide (y.action = .signal) :=
    htimes fun a => a = .signal
  have hmoved : timesOf (fun a => a ≠ .touch) id os =
      xs.countP (fun y => decide (y.action ≠ .touch)) + 1 := htimes fun a => a ≠ .touch
  rw [hchanges, hmoved, hclaimed, hreleased, hsignalled]
  rw [hclaimsLeft] at hclaims
  rw [hmovesLeft] at hmoves
  constructor
  · omega
  · omega

/-- In the sample of a completed task, there are three status changes and one claim. -/
theorem completed_bounded :
    claimsOf ⟨1⟩ (System.shown completedMoves) = 1 ∧
    (statusChanges ⟨1⟩ (System.shown completedMoves)).length = 3 ∧
    ∃ r, (System.after completedMoves).table.get ⟨1⟩ = some r ∧ (1 : ℤ) ≤ r.maxAttempts.val := by
  have hsaves : Runs (Calls (Call.SavesOnly [sampleTask .default])) .empty
      (System.shown completedMoves) (System.after completedMoves) :=
    Runs.of_moves completedMoves (by decide +kernel) (by decide +kernel)
  obtain ⟨r, hr⟩ : ∃ r, (System.after completedMoves).table.get ⟨1⟩ = some r :=
    Option.isSome_iff_exists.mp (by decide +kernel)
  have hbound := life_bounded (hsaves.enqueuing (by simpa using enqueued_sampleTask _)) hr
  have hclaims : claimsOf ⟨1⟩ (System.shown completedMoves) = 1 := by decide +kernel
  have hquiet : releasesOf ⟨1⟩ (System.shown completedMoves) = 0 ∧
      signalsOf ⟨1⟩ (System.shown completedMoves) = 0 := by decide +kernel
  refine ⟨hclaims, by decide +kernel, r, hr, ?_⟩
  have hle := hbound.1
  rw [hclaims, hquiet.1, hquiet.2] at hle
  omega

end IronDefer
