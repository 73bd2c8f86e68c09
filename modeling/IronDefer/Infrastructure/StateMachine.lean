import IronDefer.Application.Scheduler
import IronDefer.Infrastructure.History

/-!
# The state machine of a task

What the life cycle says of the stored tasks, in runs of any operations on any tables: which
status changes are ever committed, and what must have happened between two claims of one task.

## Main definitions

* `Entry.Moved`: an entry changes the status of its task from one value to another
* `Op.Reopens`, `Reopened`: how a task gets back from execution to pending

## Main results

* `status_changes`: **every committed status change is one of the ten moves**, and finished tasks
  stay finished
* `no_double_claim`: **between two claims of a task it was given back**, and the attempts of its
  claims increase
-/

namespace IronDefer

open RowStore

/-! ## Status changes -/

section Status

variable {ok : List Outcome → System → Move → Prop} {t : Table TaskRow.id}
  {log : List (ℕ × AuditRow)} {n : ℕ} {os : List Outcome} {db db' : System} {ev : Move} {o : Outcome}

/-- One step: what it commits is a move, or leaves the status alone. -/
theorem Runs.status_step (h : Runs ok (.idle t log n) os db)
    (hsave : ∀ os db sid call b, ok os db (.start sid call b) → call.SavesPending)
    (hok : ok os db ev) (hs : System.step db ev = some (db', o)) (id : TaskId) :
    statusAt db' id = statusAt db id ∨
      ∃ s, statusAt db' id = some s ∧ Moves (statusAt db id) s := by
  rcases h.committed_step hok hs id with ⟨-, hget⟩ | ⟨x, hx, hold, hnew⟩
  · exact .inl (congrArg _ hget)
  · have hr : Runs ok (.idle t log n) (os ++ [o]) db' := Reaches.next h hok hs
    have hmem : x ∈ history id (os ++ [o]) := by simp [history_append, hx]
    have hstep := (hr.caused id x hmem).step fun _ => hr.called hsave id x hmem
    rw [statusAt, statusAt, hnew, ← hold]
    rcases hstep.moves with hm | hm
    · rw [Option.map_map] at hm
      exact .inl hm.symm
    · rw [Option.map_map] at hm
      exact .inr ⟨_, rfl, hm⟩

end Status

/-- **The state machine of a task.** In every run whose saves are of pending tasks, whatever the
other operations and their interleaving, a step leaves the status of a task alone or makes one of
the ten moves, and no later step changes the status of a task that is completed, failed or
cancelled. -/
theorem status_changes {t : Table TaskRow.id} {log : List (ℕ × AuditRow)} {n : ℕ}
    {os : List Outcome} {db : System} (h : Runs (Calls Call.SavesPending) (.idle t log n) os db) :
    (∀ ev db' o, Calls Call.SavesPending os db ev → System.step db ev = some (db', o) → ∀ id,
      statusAt db' id = statusAt db id ∨
        ∃ s, statusAt db' id = some s ∧ Moves (statusAt db id) s) ∧
    ∀ os' db' id s, Runs (Calls Call.SavesPending) db os' db' → statusAt db id = some s →
      s.isTerminal = true → statusAt db' id = some s := by
  refine ⟨fun ev db' o hok hs id => h.status_step (fun _ _ _ _ _ hc => hc) hok hs id, ?_⟩
  intro os' db' id s h' hs ht
  induction h' with
  | init => exact hs
  | next hr hok hstep ih =>
    have hrun : Runs (Calls Call.SavesPending) (.idle t log n) (os ++ _) _ := Reaches.trans h hr
    rcases hrun.status_step (fun _ _ _ _ _ hc => hc) hok hstep id with heq | ⟨s', heq, hm⟩
    · rw [heq, ih]
    · rw [ih] at hm
      rw [hm.not_isTerminal] at ht
      cases ht

/-- The task of the sample is completed. -/
def completedMoves : List Move :=
  claimedMoves .default ++ serve 3 (callOf (.complete ⟨1⟩)) 20 [.all]

/-- In the sample, the task stays completed. -/
theorem completed_stays :
    statusAt (System.after completedMoves) ⟨1⟩ = some .completed ∧
      ∀ os db, Runs (Calls Call.SavesPending) (System.after completedMoves) os db →
        statusAt db ⟨1⟩ = some .completed := by
  have h : Runs (Calls Call.SavesPending) .empty (System.shown completedMoves)
      (System.after completedMoves) := Runs.of_moves _ (by decide +kernel) (by decide +kernel)
  have hs : statusAt (System.after completedMoves) ⟨1⟩ = some .completed := by decide +kernel
  exact ⟨hs, fun os db h' => (status_changes h).2 os db ⟨1⟩ _ h' hs rfl⟩

/-! ## Claims -/

/-- The entry changes the status of its task from `s` to `s'`. -/
def Entry.Moved (x : Entry) (s s' : TaskStatus) : Prop :=
  x.change.old.map TaskRow.status = some s ∧ x.change.new.status = s'

/-- The call of the entry is a claim. -/
def Entry.IsClaim (x : Entry) : Prop :=
  ∃ queue w lease region, x.call.op = .claimNext queue w lease region

/-- The operations that give a running task back: a failure with a retry, a recovery, a release. -/
def Op.Reopens : Op → Prop
  | fail .. | recoverZombieTasks | releaseLeaseForTask _ | releaseLeasesForWorker _ => True
  | _ => False

/-- Some entry gives the task back, or one suspends it and a later one signals it. -/
def Reopened (xs : List Entry) : Prop :=
  (∃ x ∈ xs, x.Moved .running .pending ∧ x.call.op.Reopens) ∨
    ∃ x y, [x, y].Sublist xs ∧
      x.Moved .running .suspended ∧ (∃ id, x.call.op = .suspend id) ∧
      y.Moved .suspended .pending ∧ ∃ id payload, y.call.op = .signal id payload

theorem Op.reopens_of_action {op : Op} {r : TaskRow}
    (h : op.action (some r) = .retry ∨ op.action (some r) = .release) : op.Reopens := by
  cases op with
  | fail | recoverZombieTasks | releaseLeaseForTask | releaseLeasesForWorker => trivial
  | _ => rcases h with h | h <;> cases h

theorem Op.eq_suspend_of_action {op : Op} {r : TaskRow} (h : op.action (some r) = .suspend) :
    ∃ id, op = .suspend id := by
  cases op with
  | suspend id => exact ⟨id, rfl⟩
  | fail | recoverZombieTasks => simp only [action, updates, Update.action] at h; split at h <;> cases h
  | _ => cases h

theorem Op.eq_signal_of_action {op : Op} {r : TaskRow} (h : op.action (some r) = .signal) :
    ∃ id payload, op = .signal id payload := by
  cases op with
  | signal id payload => exact ⟨id, payload, rfl⟩
  | fail | recoverZombieTasks => simp only [action, updates, Update.action] at h; split at h <;> cases h
  | _ => cases h

theorem Op.eq_claimNext_of_action {op : Op} {r : TaskRow} {w : WorkerId}
    (h : op.action (some r) = .claim w) :
    ∃ queue lease region, op = .claimNext queue w lease region := by
  cases op with
  | claimNext queue w lease region => cases h; exact ⟨queue, lease, region, rfl⟩
  | fail | recoverZombieTasks => simp only [action, updates, Update.action] at h; split at h <;> cases h
  | _ => cases h

section Between

variable {ok : List Outcome → System → Move → Prop} {t : Table TaskRow.id}
  {log : List (ℕ × AuditRow)} {n : ℕ} {os : List Outcome} {db : System} {id : TaskId}

/-- An entry that is no insert is a step from the row it has found. -/
theorem Runs.entry_step (h : Runs ok (.idle t log n) os db) {x : Entry} (hx : x ∈ history id os)
    {a : Action} (ha : x.action = a) (hne : a ≠ .submit) :
    ∃ r, x.change.old = some r ∧ x.call.op.action (some r) = a ∧
      Life.Step (some r.life) a x.change.new.life := by
  cases hold : x.change.old with
  | none =>
    rw [Entry.action, hold] at ha
    exact absurd ha.symm hne
  | some r =>
    have hstep := (h.caused id x hx).step fun hn => by simp [hn] at hold
    rw [Entry.action, hold] at ha
    rw [hold, ha] at hstep
    exact ⟨r, rfl, ha, hstep⟩

theorem Runs.given_back (h : Runs ok (.idle t log n) os db) {x : Entry} (hx : x ∈ history id os)
    (ha : x.action = .retry ∨ x.action = .release) :
    x.Moved .running .pending ∧ x.call.op.Reopens := by
  rcases ha with ha | ha
  · obtain ⟨r, hold, hop, hs⟩ := h.entry_step hx ha (by simp)
    generalize hl : x.change.new.life = l at hs
    cases hs with
    | retry hrun =>
      exact ⟨⟨by rw [hold]; exact congrArg some hrun, congrArg Life.status hl⟩,
        Op.reopens_of_action (.inl hop)⟩
  · obtain ⟨r, hold, hop, hs⟩ := h.entry_step hx ha (by simp)
    generalize hl : x.change.new.life = l at hs
    cases hs with
    | release hrun =>
      exact ⟨⟨by rw [hold]; exact congrArg some hrun, congrArg Life.status hl⟩,
        Op.reopens_of_action (.inr hop)⟩

theorem Runs.suspended (h : Runs ok (.idle t log n) os db) {x : Entry} (hx : x ∈ history id os)
    (ha : x.action = .suspend) : x.Moved .running .suspended ∧ ∃ id, x.call.op = .suspend id := by
  obtain ⟨r, hold, hop, hs⟩ := h.entry_step hx ha (by simp)
  generalize hl : x.change.new.life = l at hs
  cases hs with
  | suspend hrun =>
    exact ⟨⟨by rw [hold]; exact congrArg some hrun, congrArg Life.status hl⟩,
      Op.eq_suspend_of_action hop⟩

theorem Runs.claimed (h : Runs ok (.idle t log n) os db) {x : Entry} {w : WorkerId}
    (hx : x ∈ history id os) (ha : x.action = .claim w) : x.Moved .pending .running := by
  obtain ⟨r, hold, -, hs⟩ := h.entry_step hx ha (by simp)
  generalize hl : x.change.new.life = l at hs
  cases hs with
  | claim hp => exact ⟨by rw [hold]; exact congrArg some hp, congrArg Life.status hl⟩

theorem Runs.signalled (h : Runs ok (.idle t log n) os db) {x : Entry} (hx : x ∈ history id os)
    (ha : x.action = .signal) :
    x.Moved .suspended .pending ∧ ∃ id payload, x.call.op = .signal id payload := by
  obtain ⟨r, hold, hop, hs⟩ := h.entry_step hx ha (by simp)
  generalize hl : x.change.new.life = l at hs
  cases hs with
  | signal hsus =>
    exact ⟨⟨by rw [hold]; exact congrArg some hsus, congrArg Life.status hl⟩,
      Op.eq_signal_of_action hop⟩

/-- Entries that lead from a running to a pending task give it back. -/
theorem Runs.reopened (h : Runs ok (.idle t log n) os db) (id : TaskId) {xs : List Entry}
    (hsub : ∀ x ∈ xs, x ∈ history id os) {l l' : Life}
    (hp : Life.Path (some l) (lifeOf xs) (some l')) (hl : l.status = .running)
    (hl' : l'.status = .pending) : Reopened xs := by
  have hact : (lifeOf xs).map Prod.fst = xs.map Entry.action := by
    simp [lifeOf, Function.comp_def]
  have hback := hp.reopened hl hl'
  rw [hact] at hback
  rcases hback with hm | hm | hm
  · obtain ⟨x, hx, ha⟩ := List.mem_map.mp hm
    exact .inl ⟨x, hx, h.given_back (hsub x hx) (.inl ha)⟩
  · obtain ⟨x, hx, ha⟩ := List.mem_map.mp hm
    exact .inl ⟨x, hx, h.given_back (hsub x hx) (.inr ha)⟩
  · obtain ⟨ys, hys, hmap⟩ := List.sublist_map_iff.mp hm
    rcases ys with _ | ⟨x, _ | ⟨y, _ | ⟨z, ys⟩⟩⟩
    · simp at hmap
    · simp at hmap
    · obtain ⟨hax, hay⟩ : .suspend = x.action ∧ .signal = y.action := by simpa using hmap
      obtain ⟨hx, hxop⟩ := h.suspended (hsub x (hys.subset (by simp))) hax.symm
      obtain ⟨hy, hyop⟩ := h.signalled (hsub y (hys.subset (by simp))) hay.symm
      exact .inr ⟨x, y, hys, hx, hxop, hy, hyop⟩
    · simp at hmap

/-- A claim is a step of the life cycle. -/
theorem Entry.action_of_isClaim {x : Entry} (hcause : x.call.op.Causes x.began x.change)
    (hc : x.IsClaim) : ∃ w, x.action = .claim w := by
  obtain ⟨queue, w, lease, region, hop⟩ := hc
  refine ⟨w, ?_⟩
  rw [Entry.action]
  rw [hop] at hcause ⊢
  generalize x.change = c at hcause
  cases hcause with
  | insert ht => cases ht
  | update => rfl

theorem Entry.isClaim_of_action {x : Entry} {w : WorkerId} (h : x.action = .claim w) :
    x.IsClaim := by
  rw [Entry.action] at h
  cases hold : x.change.old with
  | none =>
    rw [hold] at h
    cases h
  | some r =>
    rw [hold] at h
    obtain ⟨queue, lease, region, hop⟩ := Op.eq_claimNext_of_action h
    exact ⟨queue, w, lease, region, hop⟩

/-- **While a task runs and no new claim is made, the claim stands.** -/
theorem Runs.held (h : Runs ok (.idle t log n) os db) {pre mid post : List Entry} {x y : Entry}
    (hxy : history id os = pre ++ x :: mid ++ y :: post) (hmid : ∀ z ∈ mid, ¬ z.IsClaim)
    {r : TaskRow} (hold : y.change.old = some r) (hr : r.status = .running) :
    r.life = x.change.new.life := by
  obtain ⟨r', hold', hpath, -⟩ := h.path_between hxy
  obtain rfl : r' = r := Option.some.inj (hold'.symm.trans hold)
  apply hpath.held hr
  intro w hw
  obtain ⟨p, hp, ha⟩ := List.mem_map.mp hw
  obtain ⟨z, hz, rfl⟩ := List.mem_map.mp hp
  exact hmid z hz (Entry.isClaim_of_action ha)

/-- **A claim raises the attempts** above all versions of the task before it. -/
theorem Runs.attempts_lt_of_isClaim (h : Runs ok (.idle t log n) os db) {pre mid post : List Entry}
    {x y : Entry} (hxy : history id os = pre ++ x :: mid ++ y :: post) (hy : y.IsClaim) :
    x.change.new.attempts.val < y.change.new.attempts.val := by
  obtain ⟨w, hya⟩ := Entry.action_of_isClaim (h.caused id y (by simp [hxy])) hy
  obtain ⟨r, -, hpath, hstep⟩ := h.path_between hxy
  have hle : x.change.new.life.attempts ≤ r.life.attempts := hpath.attempts_le
  have heq := hstep.attempts_eq.1
  rw [hya] at heq
  calc x.change.new.life.attempts ≤ r.life.attempts := hle
    _ < r.life.attempts + 1 := Int.lt_succ _
    _ = y.change.new.life.attempts := heq.symm

end Between

/-- A transaction that hands out a task is a claim, and has committed the row it hands out. -/
theorem Op.Spec.of_claimed {rely : Table TaskRow.id → (TaskId → Bool) → Env → Prop} {a : Bool}
    {b : Began} {op : Op} {cs : List (Change TaskRow)} {ls : List AuditRow} {fin : Finish Reply}
    {record : TaskRecord} (h : Op.Spec rely a b op cs ls fin)
    (hfin : fin.reply = .ok (.claimed (some record))) :
    ∃ c, cs = [c] ∧ TaskRecord.tryFrom c.new = .ok record ∧ (∃ r, fin = .commit r) ∧
      ∃ queue w lease region, op = .claimNext queue w lease region := by
  cases h with
  | claimed hc =>
    obtain ⟨task, htask, heq⟩ := eq_of_map_eq_ok hfin
    obtain rfl : task = record := by simpa using heq
    exact ⟨_, rfl, htask, ⟨_, rfl⟩, _, _, _, _, rfl⟩
  | save | transition | found | cancelled | expired =>
    obtain ⟨_, -, heq⟩ := eq_of_map_eq_ok hfin
    cases heq
  | @saveIdempotent _ _ _ res =>
    cases res with
    | none => cases hfin
    | some r =>
      obtain ⟨_, -, heq⟩ := eq_of_map_eq_ok hfin
      cases heq
  | _ => cases hfin

/-- **No double claim.** In every run of any operations on any tables: a task that a claim returns
is one it has committed a claim of, and between two claims of a task, commits have led the task
from running back to pending, by a failure with a retry, a recovery, a release, or a suspension
followed by a signal; the attempts committed by the later claim are the greater ones. -/
theorem no_double_claim {ok : List Outcome → System → Move → Prop} {t : Table TaskRow.id}
    {log : List (ℕ × AuditRow)} {n : ℕ} {os : List Outcome} {db : System}
    (h : Runs ok (.idle t log n) os db) :
    (∀ o ∈ os, ∀ record : TaskRecord, o.reply = some (.ok (.claimed (some record))) →
      ∃ x ∈ history record.id [o], x.IsClaim) ∧
    ∀ id pre x mid y post, history id os = pre ++ x :: mid ++ y :: post → x.IsClaim → y.IsClaim →
      x.Moved .pending .running ∧ y.Moved .pending .running ∧ Reopened mid ∧
        x.change.new.attempts.val < y.change.new.attempts.val := by
  constructor
  · intro o ho record hr
    obtain ⟨sid, call, b, cs, ls, rfl, hspec⟩ := h.committed_of_response ho (by simp) hr
    obtain ⟨c, rfl, hrec, -, hop⟩ := hspec.of_claimed rfl
    obtain ⟨hd, rfl⟩ := tryFrom_eq_ok_iff.mp hrec
    exact ⟨⟨call, b, c⟩, by simp [history, Outcome.entries, TaskRow.record], hop⟩
  · intro id pre x mid y post hxy hx hy
    have hxm : x ∈ history id os := by simp [hxy]
    have hym : y ∈ history id os := by simp [hxy]
    obtain ⟨w, hxa⟩ := Entry.action_of_isClaim (h.caused id x hxm) hx
    obtain ⟨w', hya⟩ := Entry.action_of_isClaim (h.caused id y hym) hy
    have hxr := h.claimed hxm hxa
    have hyr := h.claimed hym hya
    -- between the two, the task has been led back to pending
    obtain ⟨r, hold, hpath, -⟩ := h.path_between hxy
    have hpend : r.status = .pending := by simpa [hold] using hyr.1
    exact ⟨hxr, hyr, h.reopened id (fun z hz => by simp [hxy, hz]) hpath hxr.2 hpend,
      h.attempts_lt_of_isClaim hxy hy⟩

/-- The task of the sample is suspended, signalled and claimed again. -/
def reclaimedMoves : List Move :=
  claimedMoves .default ++
  serve 3 (callOf (.suspend ⟨1⟩)) 20 [.all] ++
  serve 4 (callOf (.signal ⟨1⟩ none)) 30 [.all] ++
  serve 5 (callOf (.claimNext sampleQueue sampleWorker 1000000000 none)) 40 [.all]

/-- In the sample, the task is given back between its claims. -/
theorem reclaimed_after_signal : ∃ create first suspend signal second,
    history ⟨1⟩ (System.shown reclaimedMoves) = [create, first, suspend, signal, second] ∧
      Reopened [suspend, signal] ∧
      first.change.new.attempts.val < second.change.new.attempts.val := by
  have h : Runs (fun _ _ _ => True) .empty (System.shown reclaimedMoves)
      (System.after reclaimedMoves) := Runs.of_moves _ (by decide +kernel) (by decide +kernel)
  have hops : (history ⟨1⟩ (System.shown reclaimedMoves)).map (fun x => x.call.op) =
      [.save (sampleTask .default), .claimNext sampleQueue sampleWorker 1000000000 none,
        .suspend ⟨1⟩, .signal ⟨1⟩ none,
        .claimNext sampleQueue sampleWorker 1000000000 none] := by decide +kernel
  generalize hxs : history ⟨1⟩ (System.shown reclaimedMoves) = xs at hops
  obtain ⟨create, xs, rfl, -, hops⟩ := List.map_eq_cons_iff.mp hops
  obtain ⟨first, xs, rfl, hfirst, hops⟩ := List.map_eq_cons_iff.mp hops
  obtain ⟨suspend, xs, rfl, -, hops⟩ := List.map_eq_cons_iff.mp hops
  obtain ⟨signal, xs, rfl, -, hops⟩ := List.map_eq_cons_iff.mp hops
  obtain ⟨second, xs, rfl, hsecond, hops⟩ := List.map_eq_cons_iff.mp hops
  obtain rfl := List.map_eq_nil_iff.mp hops
  obtain ⟨-, -, hre, hlt⟩ := (no_double_claim h).2 ⟨1⟩ [create] first [suspend, signal] second []
      hxs ⟨_, _, _, _, hfirst⟩ ⟨_, _, _, _, hsecond⟩
  exact ⟨_, _, _, _, _, rfl, hre, hlt⟩

end IronDefer
