import IronDefer.Api.Fleets

/-!
# How executions end

An execution begins with the commit of its claim, and ends with the change that leaves its row not
running. In between, the row is held by it. An outcome that is answered without an error has ended
the execution it reports.

## Main definitions

* `Claims`: a transaction has claimed the task of an execution for it
* `Ended`: a change has ended an execution

## Main results

* `Runs.held_or_ended`: **the row of an execution is held by it until a change ends it**
* `Runs.not_heldBy_of_reported`: an outcome without an error ends its execution
* `eq_of_claims`: an answered claim has claimed the execution it hands out
-/

namespace IronDefer

open RowStore

/-- The transaction `sid` has claimed the task of an execution for it. -/
def Claims (os : List Outcome) (sid : ℕ) (x : Execution) : Prop :=
  ∃ o ∈ os, o.sid? = some sid ∧ ∃ c ∈ o.changes, c.new.id = x.task ∧ c.new.HeldBy x

/-- A change has ended an execution: it has found the row held by it, and left it not running. -/
def Ended (os : List Outcome) (x : Execution) : Prop :=
  ∃ y ∈ history x.task os, (∃ r, y.change.old = some r ∧ r.HeldBy x) ∧
    y.change.new.status ≠ .running

theorem Claims.append {os : List Outcome} {sid : ℕ} {x : Execution} (h : Claims os sid x)
    (ps : List Outcome) : Claims (os ++ ps) sid x := by
  obtain ⟨o, ho, hc⟩ := h
  exact ⟨o, List.mem_append_left _ ho, hc⟩

theorem Ended.append {os : List Outcome} {x : Execution} (h : Ended os x) (ps : List Outcome) :
    Ended (os ++ ps) x := by
  obtain ⟨y, hy, hends⟩ := h
  refine ⟨y, ?_, hends⟩
  rw [history_append]
  exact List.mem_append_left _ hy

/-- An execution is known by the row that is held by it. -/
theorem TaskRow.HeldBy.unique {r : TaskRow} {x x' : Execution} (h : r.HeldBy x) (h' : r.HeldBy x')
    (htask : x.task = x'.task) : x = x' := by
  cases x
  cases x'
  obtain rfl := htask
  obtain rfl := h.attempts.symm.trans h'.attempts
  obtain rfl := Option.some.inj (h.claimedBy.symm.trans h'.claimedBy)
  rfl

section Runs

variable {ok : List Outcome → System → Move → Prop} {t : Table TaskRow.id}
  {log : List (ℕ × AuditRow)} {n : ℕ} {os : List Outcome} {db : System}

/-- A row that has been left not running is running again as a later attempt only. -/
theorem Runs.not_heldBy_of_left (h : Runs ok (.idle t log n) os db) {id : TaskId}
    {pre post : List Entry} {y : Entry} (hy : history id os = pre ++ y :: post)
    (hleft : y.change.new.status ≠ .running) {x : Execution}
    (hle : x.attempt ≤ y.change.new.attempts.val) {r : TaskRow} (hr : db.table.get id = some r) :
    ¬ r.HeldBy x := by
  intro hheld
  obtain ⟨r', hr', hpath⟩ := h.path_after hy
  obtain rfl := Option.some.inj (hr'.symm.trans hr)
  have hclaim : ∃ w, .claim w ∈ (lifeOf post).map Prod.fst := by
    by_contra hno
    exact hpath.not_running hleft (fun w hw => hno ⟨w, hw⟩) hheld.status
  obtain ⟨w, hw⟩ := hclaim
  have hlt : y.change.new.attempts.val < r'.attempts.val := hpath.attempts_lt_of_claim hw
  rw [hheld.attempts] at hlt
  exact Int.not_lt.mpr hle hlt

/-- A row whose execution has ended is not held by it. -/
theorem Runs.not_heldBy_of_ended (h : Runs ok (.idle t log n) os db) {x : Execution}
    (hends : Ended os x) {r : TaskRow} (hr : db.table.get x.task = some r) : ¬ r.HeldBy x := by
  obtain ⟨y, hy, ⟨r₀, hold, hheld⟩, hleft⟩ := hends
  obtain ⟨pre, post, hsplit⟩ := List.append_of_mem hy
  have hstep := (h.caused _ y hy).step fun hn => by simp [hn] at hold
  rw [hold] at hstep
  have hle : r₀.attempts.val ≤ y.change.new.attempts.val := hstep.attempts_le
  exact h.not_heldBy_of_left hsplit hleft (hheld.attempts ▸ hle) hr

/-- A change of a running row leaves its life as it is, or the row not running. -/
theorem life_eq_of_running {l l' : Life} {a : Action} (h : Life.Step (some l) a l')
    (hl : l.status = .running) (hl' : l'.status = .running) : l' = l := by
  cases h with
  | touch => rfl
  | claim hs =>
    rw [hl] at hs
    cases hs
  | _ => cases hl'

/-- **The row of an execution is held by it until a change ends it.** -/
theorem Runs.held_or_ended (h : Runs ok (.idle t log n) os db) {x : Execution} {k : Entry}
    (hk : k ∈ history x.task os) (hheld : k.change.new.HeldBy x) :
    (∃ r, db.table.get x.task = some r ∧ r.HeldBy x) ∨ Ended os x := by
  induction h with
  | init => cases hk
  | @next os db ev db' o hr hok hs ih =>
    have hnext : Runs ok (.idle t log n) (os ++ [o]) db' := .next hr hok hs
    rw [history_append] at hk
    rcases Runs.committed_step hr hok hs x.task with ⟨hnil, hget⟩ | ⟨z, hz, hold, hnew⟩
    · rw [hnil, List.append_nil] at hk
      rw [hget]
      exact (ih hk).imp_right fun hends => hends.append [o]
    · rw [hz] at hk
      rw [hnew]
      rcases List.mem_append.mp hk with hk | hk
      · rcases ih hk with ⟨r, hr', hrheld⟩ | hends
        · rw [hr'] at hold
          have hzm : z ∈ history x.task (os ++ [o]) := by
            rw [history_append, hz]
            exact List.mem_append_right _ List.mem_cons_self
          -- a change that leaves the row running leaves its claim, too
          by_cases hrun : z.change.new.status = .running
          · have hstep := (hnext.caused _ z hzm).step fun hn => by simp [hn] at hold
            rw [hold] at hstep
            have hlife := life_eq_of_running hstep hrheld.status hrun
            exact .inl ⟨_, rfl, hrheld.of_life hrun hlife⟩
          · exact .inr ⟨z, hzm, ⟨r, hold, hrheld⟩, hrun⟩
        · exact .inr (hends.append [o])
      · obtain rfl := List.mem_singleton.mp hk
        exact .inl ⟨_, rfl, hheld⟩

/-- An execution whose claim has committed has a claim in the history of its task. -/
theorem Runs.held_or_ended_of_claims (h : Runs ok (.idle t log n) os db) {sid : ℕ} {x : Execution}
    (hclaims : Claims os sid x) :
    (∃ r, db.table.get x.task = some r ∧ r.HeldBy x) ∨ Ended os x := by
  obtain ⟨o, ho, -, c, hc, hid, hheld⟩ := hclaims
  cases o with
  | committed sid call b cs ls r =>
    have hk : (⟨call, b, c⟩ : Entry) ∈ history x.task os :=
      mem_history.mpr ⟨⟨_, ho, List.mem_map_of_mem hc⟩, hid⟩
    exact h.held_or_ended hk hheld
  | _ => cases hc

theorem Runs.held_or_ended_of_execution (h : Runs ok (.idle t log n) os db) {x : Execution}
    (hx : x ∈ executions os) : (∃ r, db.table.get x.task = some r ∧ r.HeldBy x) ∨ Ended os x := by
  obtain ⟨o, ho, hexec⟩ := List.mem_filterMap.mp hx
  obtain ⟨k, hk, -, hheld⟩ := h.execution_claimed ho hexec
  exact h.held_or_ended (mem_history_of_step ho hk) hheld

end Runs

/-! ## Outcomes -/

/-- An operation that reports the outcome of a task leaves it not running. -/
theorem Op.Reports.ends {op : Op} {id : TaskId} (h : op.Reports id) {b : Began} {c : Change TaskRow}
    (hc : op.Causes b c) : c.new.id = id ∧ c.new.status ≠ .running := by
  cases hc with
  | insert ht =>
    cases op with
    | save | saveIdempotent | inTx => exact h.elim
    | _ => cases ht
  | @update u r r' hu hrw =>
    cases op with
    | complete | fail | suspend | releaseLeaseForTask =>
      obtain rfl := List.mem_singleton.mp hu
      cases hrw <;> exact ⟨h, by simp⟩
    | _ => exact h.elim

/-- A report that is answered without an error has changed its task. -/
theorem Op.Spec.of_reports {rely : Table TaskRow.id → (TaskId → Bool) → Env → Prop} {a : Bool}
    {b : Began} {op : Op} {cs : List (Change TaskRow)} {ls : List AuditRow} {fin : Finish Reply}
    (h : Op.Spec rely a b op cs ls fin) {id : TaskId} (hop : op.Reports id) {resp : Response}
    (hfin : fin.reply = .ok resp) : ∃ c, cs = [c] ∧ ∃ r, fin = .commit r := by
  cases h with
  | transition => exact ⟨_, rfl, _, rfl⟩
  | releasedTask => exact ⟨_, rfl, _, rfl⟩
  | refused => cases hfin
  | notReleased => cases hfin
  | _ => exact hop.elim

/-- **An outcome that is answered without an error has ended its execution.** -/
theorem Runs.not_heldBy_of_reported {os : List Outcome} {db : System}
    (h : Runs OnBehalf .empty os db) {o : Outcome} (ho : o ∈ os) {call : Call}
    (hop : o.op = some call) {x : Execution} (hbehalf : call.onBehalf = some x)
    (hreports : call.op.Reports x.task) {resp : Response} (hreply : o.reply = some (.ok resp))
    {r : TaskRow} (hr : db.table.get x.task = some r) : ¬ r.HeldBy x := by
  have hspec := h.spec_idle o ho
  cases o with
  | committed sid call' b cs ls reply =>
    obtain rfl : reply = .ok resp := Option.some.inj hreply
    obtain rfl : call' = call := Option.some.inj hop
    obtain ⟨c, rfl, -⟩ := (hspec trivial).of_reports hreports rfl
    have hcaused : call'.op.Causes b c := Runs.causes h _ ho c List.mem_cons_self
    obtain ⟨hid, hleft⟩ := hreports.ends hcaused
    have hy : (⟨call', b, c⟩ : Entry) ∈ history x.task os :=
      mem_history.mpr ⟨⟨_, ho, List.mem_map_of_mem List.mem_cons_self⟩, hid⟩
    obtain ⟨pre, post, hsplit⟩ := List.append_of_mem hy
    -- the claim of the execution comes before its outcome, and the attempts have not fallen since
    obtain ⟨-, -, pre₁, k, mid, rfl, -, hheld⟩ := h.claim_before hsplit hbehalf
    obtain ⟨r₀, -, hpath, hstep⟩ := h.path_between hsplit
    have hle : k.change.new.attempts.val ≤ c.new.attempts.val :=
      Int.le_trans hpath.attempts_le hstep.attempts_le
    rw [hheld.attempts] at hle
    exact h.not_heldBy_of_left hsplit hleft hle hr
  | returned sid call' b reply =>
    obtain rfl : reply = .ok resp := Option.some.inj hreply
    obtain rfl : call' = call := Option.some.inj hop
    obtain ⟨cs, ls, hspec⟩ := hspec trivial
    obtain ⟨-, -, r, hfin⟩ := hspec.of_reports hreports rfl
    cases hfin
  | silent => cases hreply
  | failed => cases hreply

/-! ## Claims -/

/-- A claim that is answered without a task has changed nothing. -/
theorem Op.Spec.of_unclaimed {rely : Table TaskRow.id → (TaskId → Bool) → Env → Prop} {a : Bool}
    {b : Began} {queue : QueueName} {w : WorkerId} {lease : Duration} {region : Option String}
    {cs : List (Change TaskRow)} {ls : List AuditRow} {fin : Finish Reply}
    (h : Op.Spec rely a b (.claimNext queue w lease region) cs ls fin)
    (hfin : fin.reply = .ok (.claimed none)) : cs = [] := by
  cases h with
  | unclaimed => rfl
  | claimed =>
    obtain ⟨_, -, heq⟩ := eq_of_map_eq_ok hfin
    cases heq
  | refused => rfl
  | transition htr => cases htr

section Server

variable {sv : TaskServer} {sid : ℕ} {wk : Worker}

/-- A claim that is answered without a task has claimed none. -/
theorem not_claims_of_unclaimed (hfresh : sv.Fresh) (hrun : sv.Served)
    (hcall : sv.Called sid wk.claimCall) (ha : sv.answer? sid = some (some (.ok (.claimed none))))
    (x : Execution) : ¬ Claims sv.shown sid x := by
  rintro ⟨o, ho, hsid, c, hc, -⟩
  obtain ⟨o', ho', hsid', hreply⟩ := Server.answer?_eq_some ha
  obtain rfl := hfresh.once o ho o' ho' sid hsid hsid'
  have hop := hcall.op_eq hfresh ho hsid
  cases o with
  | committed sid call b cs ls r =>
    obtain rfl : r = _ := Option.some.inj hreply
    obtain rfl : call = wk.claimCall := Option.some.inj hop
    obtain rfl := (hrun.spec_committed ho).of_unclaimed rfl
    cases hc
  | _ => cases hc

/-- A claim that is answered with a task has claimed it for the execution that is handed out. -/
theorem eq_of_claims (hfresh : sv.Fresh) (hrun : sv.Served) {task : TaskRecord}
    (hcall : sv.Called sid wk.claimCall)
    (ha : sv.answer? sid = some (some (.ok (.claimed (some task))))) {x : Execution}
    (hclaims : Claims sv.shown sid x) : wk.execution task = x := by
  obtain ⟨o, ho, hsid, c, hc, hid, hheld⟩ := hclaims
  obtain ⟨o', ho', hsid', hreply, hexec⟩ := handed_out hfresh hrun hcall ha
  obtain rfl := hfresh.once o ho o' ho' sid hsid hsid'
  cases o with
  | committed sid call b cs ls r =>
    obtain rfl : r = _ := Option.some.inj hreply
    obtain ⟨c', rfl, hrec, -⟩ := (hrun.spec_committed ho).of_claimed rfl
    obtain rfl := List.mem_singleton.mp hc
    obtain ⟨k, hk, -, hkheld⟩ := hrun.execution_claimed ho hexec
    obtain ⟨hd, rfl⟩ := tryFrom_eq_ok_iff.mp hrec
    obtain rfl : (⟨call, b, c⟩ : Entry) = k := by
      simpa [history, Outcome.entries, TaskRow.record, Worker.execution] using hk
    exact hkheld.unique hheld hid
  | _ => cases hc

end Server

end IronDefer
