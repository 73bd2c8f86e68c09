import IronDefer.Infrastructure.Checkpoints

/-!
# Signals

Any number of signals, cancellations and expiries race for a suspended task. The row lock lets one
of them end the suspension; the others find the task no longer suspended. The next executions are
given the payload of the signal that has won.

## Main definitions

* `Entry.Ends`: an entry ends a suspension
* `Outcome.signal?`, `lastSignal`: the payloads of the signals that have ended suspensions
* `NotBefore`: a transaction begins no earlier than those that have ended, the clock being monotone

## Main results

* `signal_delivery`: **each suspension is ended once**, the losing signals change nothing, and
  every execution is given the payload of the last signal that has won
-/

namespace IronDefer

open RowStore

/-- The entry ends a suspension: a signal resumes the task, a cancellation cancels it, or the
watchdog lets it fail. -/
def Entry.Ends (x : Entry) : Prop :=
  (x.Moved .suspended .pending ∧ ∃ id payload, x.call.op = .signal id payload) ∨
  (x.Moved .suspended .cancelled ∧ ∃ id, x.call.op = .cancel id) ∨
  (x.Moved .suspended .failed ∧ ∃ timeout, x.call.op = .expireSuspendedTasks timeout)

/-- An entry that finds its task suspended ends the suspension. -/
theorem Op.Causes.ends {x : Entry} (h : x.call.op.Causes x.began x.change) {r : TaskRow}
    (hold : x.change.old = some r) (hs : r.status = .suspended) : x.Ends := by
  obtain ⟨u, hu, hrw⟩ := h.of_some hold
  have hfrom : x.change.old.map TaskRow.status = some .suspended := by
    rw [hold, Option.map_some, hs]
  generalize hnew : x.change.new = r' at hrw
  have hto : ∀ s, r'.status = s → x.Moved .suspended s := fun s hr' => ⟨hfrom, hnew ▸ hr'⟩
  cases hrw with
  | signal => exact .inl ⟨hto _ rfl, _, _, Op.mem_updates_signal.mp hu⟩
  | cancel => exact .inr (.inl ⟨hto _ rfl, _, Op.mem_updates_cancel.mp hu⟩)
  | expireSuspendedTasks =>
    obtain ⟨timeout, hop, -⟩ := Op.mem_updates_expireSuspendedTasks.mp hu
    exact .inr (.inr ⟨hto _ rfl, timeout, hop⟩)
  | cleanupExpiredIdempotencyKeys _ _ hterm => simp [hs, TaskStatus.isTerminal] at hterm
  | _ hr => simp [hs] at hr

theorem Entry.Ends.moved {x : Entry} (h : x.Ends) :
    x.change.old.map TaskRow.status = some .suspended ∧ x.change.new.status ≠ .suspended := by
  rcases h with ⟨h, -⟩ | ⟨h, -⟩ | ⟨h, -⟩
  · exact ⟨h.1, by simp [h.2]⟩
  · exact ⟨h.1, by simp [h.2]⟩
  · exact ⟨h.1, by simp [h.2]⟩

section Runs

variable {ok : List Outcome → System → Move → Prop} {t : Table TaskRow.id}
  {log : List (ℕ × AuditRow)} {n : ℕ} {os : List Outcome} {db : System} {id : TaskId}

/-- **A suspension is ended by the next entry of its task, and by no other.** -/
theorem Runs.ended_once (h : Runs ok (.idle t log n) os db) {pre post : List Entry} {x : Entry}
    (hx : history id os = pre ++ x :: post) (hs : x.change.new.status = .suspended) :
    (post = [] ∧ statusAt db id = some .suspended) ∨
      ∃ y rest, post = y :: rest ∧ y.Ends ∧ ∀ a z b, rest = a ++ z :: b → z.Ends →
        ∃ s ∈ a, s.Moved .running .suspended := by
  rcases post with _ | ⟨y, rest⟩
  · obtain ⟨r, hget, hpath⟩ := h.path_after hx
    have hlife : x.change.new.life = r.life := Option.some.inj hpath
    refine .inl ⟨rfl, ?_⟩
    rw [statusAt, hget, Option.map_some, ← hs]
    exact congrArg some (congrArg Life.status hlife).symm
  · have hxy : history id os = pre ++ x :: [] ++ y :: rest := by simpa using hx
    have hold : some x.change.new = y.change.old := h.linked_between hxy
    have hy : y.Ends := (h.caused id y (by simp [hx])).ends hold.symm hs
    refine .inr ⟨y, rest, rfl, hy, fun a z b hrest hz => ?_⟩
    have hyz : history id os = (pre ++ [x]) ++ y :: a ++ z :: b := by simp [hx, hrest]
    obtain ⟨r, hzold, hpath, -⟩ := h.path_between hyz
    have hsus : r.status = .suspended := by
      have hmoved := hz.moved.1
      rw [hzold] at hmoved
      exact Option.some.inj hmoved
    -- between two ends the task has been suspended again
    have hact := hpath.suspended hy.moved.2 hsus
    obtain ⟨p, hp, hact⟩ := List.mem_map.mp hact
    obtain ⟨s, hsa, rfl⟩ := List.mem_map.mp hp
    have hsm : s ∈ history id os := by simp [hyz, hsa]
    exact ⟨s, hsa, (h.suspended hsm hact).1⟩

/-! ## Losing signals -/

/-- What a signal that replies has done: it has ended the suspension, or nothing. -/
theorem Op.Spec.of_signal {rely : Table TaskRow.id → (TaskId → Bool) → Env → Prop} {a : Bool}
    {b : Began} {payload : Option Json} {cs : List (Change TaskRow)} {ls : List AuditRow}
    {fin : Finish Reply} (h : Op.Spec rely a b (.signal id payload) cs ls fin)
    (hpay : checkSignalPayload payload = .ok ()) :
    (∃ c, cs = [c] ∧ UpdatedBy rely b (.signal id payload) [] cs ∧ fin = .commit (taskReply c.new)) ∨
    (cs = [] ∧ ls = [] ∧ fin = .rollback (.error (.notFound id)) ∧
      SelectedBy rely (fun r => decide (r.id = id)) [] none) ∨
    (cs = [] ∧ ls = [] ∧ fin = .rollback (.error (.notInExpectedState id "Suspended")) ∧
      ∃ row, SelectedBy rely (fun r => decide (r.id = id)) [] (some row)) := by
  cases h with
  | transition htr hc =>
    cases htr
    exact .inl ⟨_, rfl, hc, rfl⟩
  | refused href =>
    cases href with
    | payload he =>
      rw [hpay] at he
      cases he
    | notFound _ hsel => exact .inr (.inl ⟨rfl, rfl, rfl, hsel⟩)
    | notSuspended _ hsel => exact .inr (.inr ⟨rfl, rfl, rfl, _, hsel⟩)

/-- **A signal that replies has ended a suspension, or has changed nothing** and says that the task
is not suspended or not there. -/
theorem Runs.signal_replied (h : Runs ok (.idle t log n) os db) {o : Outcome} (ho : o ∈ os)
    {call : Call} {payload : Option Json} {reply : Reply} (hcall : o.op = some call)
    (hop : call.op = .signal id payload) (hreply : o.reply = some reply)
    (hpay : checkSignalPayload payload = .ok ()) :
    (∃ x, history id [o] = [x] ∧ x.Ends ∧ x.change.new.signalPayload = payload) ∨
      o.changes = [] ∧ o.logs = [] ∧ (reply = .error (.notInExpectedState id "Suspended") ∨
        reply = .error (.notFound id)) := by
  have hspec := h.spec_idle o ho
  cases o with
  | committed sid call' b cs ls r =>
    obtain rfl : call' = call := Option.some.inj hcall
    have hspec : Op.Spec _ call'.auditLog b call'.op cs (ls.map Prod.snd) (.commit r) := hspec trivial
    rw [hop] at hspec
    -- a commit is that of the row resumed, and a refusal is a rollback
    rcases hspec.of_signal hpay with ⟨c, rfl, hc, -⟩ | ⟨-, -, hfin, -⟩ | ⟨-, -, hfin, -⟩
    · left
      obtain ⟨r, hold, hrw⟩ := hc.rewrites c List.mem_cons_self
      have hcause : call'.op.Causes b c := Runs.causes h _ ho c List.mem_cons_self
      generalize hnew : c.new = r' at hrw
      cases hrw with
      | signal hs =>
        refine ⟨⟨call', b, c⟩, by simp [history, Outcome.entries, hnew], ?_, by rw [hnew]⟩
        exact Op.Causes.ends (x := ⟨call', b, c⟩) hcause hold hs
    · cases hfin
    · cases hfin
  | returned sid call' b r =>
    obtain rfl : call' = call := Option.some.inj hcall
    obtain rfl : r = reply := Option.some.inj hreply
    obtain ⟨cs, ls, hspec⟩ := hspec trivial
    rw [hop] at hspec
    rcases hspec.of_signal hpay with ⟨c, -, -, hfin⟩ | ⟨-, -, hfin, -⟩ | ⟨-, -, hfin, -⟩
    · cases hfin
    · cases hfin
      exact .inr ⟨rfl, rfl, .inr rfl⟩
    · cases hfin
      exact .inr ⟨rfl, rfl, .inl rfl⟩
  | _ => cases hreply

end Runs

/-! ## Payloads -/

/-- The payload of the signal a step has resumed a task by. -/
def Outcome.signal? (id : TaskId) : Outcome → Option (Option Json)
  | .committed _ call _ _ _ _ =>
    match call.op with
    | .signal taskId payload => if taskId = id then some payload else none
    | _ => none
  | _ => none

/-- The payload of the last signal that has resumed a task. -/
def lastSignal (id : TaskId) (os : List Outcome) : Option (Option Json) :=
  lastOf (Outcome.signal? id) os

section Payload

variable {ok : List Outcome → System → Move → Prop} {t : Table TaskRow.id}
  {log : List (ℕ × AuditRow)} {n : ℕ} {os : List Outcome} {db : System} {id : TaskId}

/-- A signal commits only what it has changed. -/
theorem Op.Spec.signal_committed {rely : Table TaskRow.id → (TaskId → Bool) → Env → Prop} {a : Bool}
    {b : Began} {payload : Option Json} {cs : List (Change TaskRow)} {ls : List AuditRow}
    {r : Reply} (h : Op.Spec rely a b (.signal id payload) cs ls (.commit r)) :
    ∃ c, cs = [c] ∧ c.new.id = id := by
  cases h with
  | transition htr hc =>
    cases htr
    obtain ⟨r, -, hrw⟩ := hc.rewrites _ List.mem_cons_self
    refine ⟨_, rfl, ?_⟩
    generalize Change.new _ = r' at hrw
    cases hrw
    rfl

/-- A step without an entry of the task has resumed it by no signal. -/
theorem Runs.signal?_of_nil (h : Runs ok (.idle t log n) os db) {o : Outcome} (ho : o ∈ os)
    (hnil : history id [o] = []) : o.signal? id = none := by
  cases o with
  | committed sid call b cs ls r =>
    have hspec := h.spec_committed ho
    cases hop : call.op with
    | signal taskId payload =>
      rw [hop] at hspec
      obtain ⟨c, rfl, rfl⟩ := hspec.signal_committed
      simp only [Outcome.signal?, hop]
      apply if_neg
      intro heq
      simp [history, Outcome.entries, heq] at hnil
    | _ => simp only [Outcome.signal?, hop]
  | _ => rfl

/-- The payload an operation resumes its task with. -/
def Op.signal? : Op → Option (Option Json)
  | .signal _ payload => some payload
  | _ => none

/-- A step with an entry of the task has resumed it, if its call is a signal. -/
theorem Runs.signal?_of_entry (h : Runs ok (.idle t log n) os db) {o : Outcome} (ho : o ∈ os)
    {x : Entry} (hx : history id [o] = [x]) :
    o.signal? id = x.call.op.signal? := by
  have hxm : x ∈ history id [o] := by simp [hx]
  obtain ⟨hxo, hid⟩ := mem_history_singleton.mp hxm
  cases o with
  | committed sid call b cs ls r =>
    obtain ⟨c, hc, rfl⟩ := List.mem_map.mp hxo
    have hspec := h.spec_committed ho
    cases hop : call.op with
    | signal taskId payload =>
      rw [hop] at hspec
      obtain ⟨c', rfl, rfl⟩ := hspec.signal_committed
      obtain rfl := List.mem_singleton.mp hc
      simp only [Outcome.signal?, Op.signal?, hop]
      exact if_pos hid
    | _ => simp only [Outcome.signal?, Op.signal?, hop]
  | _ => cases hxo

/-- An update keeps the signal payload of a row, or is a signal. -/
theorem Update.Rewrites.signalPayload {op : Op} {b : Began} {u : Update} {r r' : TaskRow}
    (h : Rewrites b u r r') (hu : u ∈ op.updates) :
    r'.signalPayload = op.signal?.getD r.signalPayload := by
  cases op with
  | signal id payload =>
    obtain rfl := List.mem_singleton.mp hu
    cases h
    rfl
  | recoverZombieTasks =>
    rcases List.mem_cons.mp hu with rfl | hu
    · cases h
      rfl
    · obtain rfl := List.mem_singleton.mp hu
      cases h
      rfl
  | save | saveIdempotent | inTx | findById => cases hu
  | _ =>
    obtain rfl := List.mem_singleton.mp hu
    cases h <;> rfl

/-- **The payload of an unfinished task is that of the last signal that has resumed it.** -/
theorem Runs.signalPayload_eq (h : Runs Enqueuing .empty os db) {r : TaskRow}
    (hr : db.table.get id = some r) (hterm : r.status.isTerminal = false) :
    r.signalPayload = (lastSignal id os).join := by
  have hinsert : ∀ op : Op, ∀ task ∈ op.tasks, Fresh task → op.signal? = none ∧
      ∀ b lastError, (insertedRow b task lastError).signalPayload = none := by
    intro op task ht hfresh
    refine ⟨?_, fun _ _ => hfresh.signalPayload⟩
    cases op with
    | signal => cases ht
    | _ => rfl
  have hcol := h.column_of_op TaskRow.signalPayload Op.signal?
    (fun o ho hnil => h.signal?_of_nil ho hnil) (fun o ho x hx => h.signal?_of_entry ho hx) hinsert
    (fun _ _ _ _ _ hrw hu _ => hrw.signalPayload hu) hr hterm
  rw [hcol, lastSignal]
  cases lastOf (Outcome.signal? id) os <;> rfl

end Payload

/-! ## Tasks that are not there -/

section Absent

variable {ok : List Outcome → System → Move → Prop} {os₁ os : List Outcome} {db₁ db : System}
  {id : TaskId}

theorem SelectedBy.eq_none {rely : Table TaskRow.id → (TaskId → Bool) → Env → Prop}
    (h : SelectedBy rely (fun r => decide (r.id = id)) [] none) :
    ∃ t free e, rely t free e ∧ t.get id = none := by
  obtain ⟨t, e, free, hrely, -, hfind⟩ := h
  exact ⟨t, free, e, hrely, hfind⟩

theorem SelectedBy.eq_some {rely : Table TaskRow.id → (TaskId → Bool) → Env → Prop} {row : TaskRow}
    (h : SelectedBy rely (fun r => decide (r.id = id)) [] (some row)) :
    ∃ t free e, rely t free e ∧ t.get id = some row := by
  obtain ⟨t, e, free, hrely, -, hfind⟩ := h
  exact ⟨t, free, e, hrely, hfind⟩

/-- A signal begun when its task exists does not miss it, and one whose task does not exist when it
ends does not find it. -/
theorem Runs.signal_exists (h₁ : Runs ok .empty os₁ db₁) (h : Runs ok db₁ os db) {sid : ℕ}
    (hsid : db₁.sessions.get sid = none) {call : Call} {b : Began} {reply : Reply}
    (ho : .returned sid call b reply ∈ os) {payload : Option Json}
    (hop : call.op = .signal id payload) (hpay : checkSignalPayload payload = .ok ()) :
    ((db₁.table.get id).isSome → reply ≠ .error (.notFound id)) ∧
      (db.table.get id = none → reply ≠ .error (.notInExpectedState id "Suspended")) := by
  have hx : db₁.Exclusive := Reaches.exclusive (Db.exclusive_idle _ _ _) h₁
  have hopen : ∀ s ∈ db₁.sessions.rows, ¬ db₁.sessions.get s.id = none := fun s hs hn => by
    simp [Table.get_key_of_mem hs] at hn
  constructor
  · rintro hsome rfl
    have hspec := h.spec (fun t _ _ => (t.get id).isSome) (fun sid => db₁.sessions.get sid = none)
      hx hopen fun _ _ _ _ hr _ _ => Reaches.get_isSome hr hsome
    obtain ⟨cs, ls, hret⟩ := hspec _ ho hsid
    rw [hop] at hret
    rcases hret.of_signal hpay with ⟨_, -, -, hfin⟩ | ⟨-, -, -, hsel⟩ | ⟨-, -, hfin, -⟩
    · cases hfin
    · obtain ⟨t, -, -, ht, hnone⟩ := hsel.eq_none
      rw [hnone] at ht
      cases ht
    · cases hfin
  · rintro hnone rfl
    have habsent : ∀ ps db', Runs ok db₁ ps db' → changesAt TaskRow.id id ps = [] →
        db'.table.get id = none := by
      intro ps db' hr hps
      have hback : db₁.table.get id = none := by
        by_contra hne
        have hsome := Reaches.get_isSome h (Option.isSome_iff_ne_none.mpr hne)
        simp [hnone] at hsome
      have hlink := Reaches.linked hr id
      rw [hps, hback] at hlink
      exact hlink.symm
    -- a change would leave a row
    have hnil : changesAt TaskRow.id id os = [] := by
      have hlink := Reaches.linked h id
      rw [hnone] at hlink
      generalize db₁.table.get id = o at hlink
      generalize changesAt TaskRow.id id os = cs at hlink
      rcases List.eq_nil_or_concat cs with rfl | ⟨cs, c, rfl⟩
      · rfl
      · rw [List.concat_eq_append] at hlink
        obtain ⟨_, -, -, hlast⟩ := linked_append.mp hlink
        cases hlast
    have hrun := Reaches.restrict (P := fun ps => changesAt TaskRow.id id ps = [])
      (fun ps o hps => (List.append_eq_nil_iff.mp (changesAt_append id ps [o] ▸ hps)).1) h hnil
    have hspec := Runs.spec (fun t _ _ => t.get id = none) (fun sid => db₁.sessions.get sid = none)
      hx hopen (fun ps db' _ _ hr hok _ => habsent ps db'
        (Reaches.mono (fun _ _ _ hok => hok.1) hr) hok.2) hrun
    obtain ⟨cs, ls, hret⟩ := hspec _ ho hsid
    rw [hop] at hret
    rcases hret.of_signal hpay with ⟨_, -, -, hfin⟩ | ⟨-, -, hfin, -⟩ | ⟨-, -, -, row, hsel⟩
    · cases hfin
    · cases hfin
    · obtain ⟨t, -, -, ht, hget⟩ := hsel.eq_some
      rw [ht] at hget
      cases hget

end Absent

/-! ## Eligibility -/

/-- A transaction begins no earlier than those that have ended: the database clock does not go
back. -/
def NotBefore (os : List Outcome) (b : Began) : Prop :=
  ∀ o ∈ os, ∀ b', o.began = some b' → b'.now ≤ b.now

/-- Some claim of the task has found the row due. -/
def TaskRow.DueBy (xs : List Entry) (r : TaskRow) : Prop :=
  ∃ z ∈ xs, z.IsClaim ∧ r.scheduledAt ≤ z.began.now

section Eligible

variable {os : List Outcome} {db : System} {id : TaskId}

theorem Outcome.began_of_mem {o : Outcome} {x : Entry} (h : x ∈ o.entries) :
    o.began = some x.began := by
  cases o with
  | committed sid call b cs ls r =>
    obtain ⟨c, -, rfl⟩ := List.mem_map.mp h
    rfl
  | _ => cases h

/-- A task that runs or is suspended was due when it was claimed: no later statement but those that
give it back moves its schedule. -/
theorem Runs.due (h : Runs Enqueuing .empty os db) {x : Entry} (hx : x ∈ history id os)
    {r : TaskRow}
    (hold : x.change.old = some r) (hs : r.status = .running ∨ r.status = .suspended) :
    r.DueBy (history id os) := by
  have hkeeps := h.keeps (I := fun r => r.status = .running ∨ r.status = .suspended →
    r.DueBy (history id os)) id (fun r hr => by simp at hr) ?_
  · exact (hkeeps.2 x hx).1 r hold hs
  · intro x hx hI hst
    have hcause := h.caused id x hx
    cases hold : x.change.old with
    | none =>
      obtain ⟨task, ht, lastError, hnew⟩ := hcause.of_none hold
      have hfresh := h.called (P := fun call => call.op.Enqueues) (fun _ _ _ _ _ hc => hc) id x hx
      have hpend : (insertedRow x.began task lastError).status = .pending :=
        (hfresh task ht).fresh.status
      rw [hnew, hpend] at hst
      simp at hst
    | some r =>
      obtain ⟨u, hu, hrw⟩ := hcause.of_some hold
      have hr := hI r hold
      generalize hnew : x.change.new = r' at hrw hst
      cases hrw with
      -- only a claim makes a task run, and it selects what is due
      | claimNext hp hq hdue =>
        exact ⟨x, hx, ⟨_, _, _, _, Op.mem_updates_claimNext.mp hu⟩, hdue⟩
      -- these keep the schedule
      | suspend hrun => exact hr (.inl hrun)
      | writeCheckpoint hrun => exact hr (.inl hrun)
      | cleanupExpiredIdempotencyKeys _ _ hterm => exact hr hst
      | _ => simp at hst

/-- **A resumed task is due**: from its signal on, a claim that begins, for its queue and a region
that may take it, selects it. -/
theorem Runs.resumed_due (h : Runs Enqueuing .empty os db) {pre : List Entry} {x : Entry}
    (hx : history id os = pre ++ [x]) (hmoved : x.Moved .suspended .pending) {b : Began}
    (hb : NotBefore os b) : ∃ r, db.table.get id = some r ∧ r.scheduledAt ≤ b.now ∧
      ∀ queue w lease region, r.queue = queue.asStr → Update.regionMatches region r = true →
        (Update.claimNext queue w lease region).selects b r = true := by
  have hxm : x ∈ history id os := by simp [hx]
  have hget : db.table.get id = some x.change.new := by
    have hlink := h.history_linked id
    rw [hx, List.map_append] at hlink
    obtain ⟨_, -, -, hlast⟩ := linked_append.mp hlink
    exact hlast.symm
  obtain ⟨r, hold, hs⟩ := Option.map_eq_some_iff.mp hmoved.1
  obtain ⟨z, hz, -, hdue⟩ := h.due hxm hold (.inr hs)
  -- a signal leaves the schedule as it is
  have hsched : x.change.new.scheduledAt = r.scheduledAt := by
    obtain ⟨u, hu, hrw⟩ := (h.caused id x hxm).of_some hold
    have hpend := hmoved.2
    generalize x.change.new = r' at hrw hpend
    cases hrw with
    | signal => rfl
    | cleanupExpiredIdempotencyKeys => rfl
    | cancel | expireSuspendedTasks => cases hpend
    | _ hr => simp [hs] at hr
  obtain ⟨⟨o, ho, hzo⟩, -⟩ := mem_history.mp hz
  have hnow : x.change.new.scheduledAt ≤ b.now := by
    rw [hsched]
    exact le_trans hdue (hb o ho z.began (Outcome.began_of_mem hzo))
  refine ⟨x.change.new, hget, hnow, fun queue w lease region hq hreg => ?_⟩
  simp [Update.selects, hq, hmoved.2, hnow, hreg]

end Eligible

/-- **Signal delivery.** In every run from the empty store of any operations, the submissions being
the scheduler's: a suspension is ended by the next entry of its task and by no other; a signal that
replies has ended a suspension and left its payload, or has changed nothing and says that the task
is not suspended or does not exist, the latter never when it existed as the signal began and the
former never when it does not exist in the end; every execution is given the payload of the last
signal that has resumed its task; and while a task resumed by a signal waits, every claim that
begins for its queue and region selects it. -/
theorem signal_delivery {os : List Outcome} {db : System} (h : Runs Enqueuing .empty os db) :
    (∀ id pre x post, history id os = pre ++ x :: post → x.Moved .running .suspended →
      (post = [] ∧ statusAt db id = some .suspended) ∨
        ∃ y rest, post = y :: rest ∧ y.Ends ∧ ∀ a z b, rest = a ++ z :: b → z.Ends →
          ∃ s ∈ a, s.Moved .running .suspended) ∧
    (∀ o ∈ os, ∀ call id payload reply, o.op = some call → call.op = .signal id payload →
      o.reply = some reply → checkSignalPayload payload = .ok () →
      (∃ x, history id [o] = [x] ∧ x.Ends ∧ x.change.new.signalPayload = payload) ∨
        o.changes = [] ∧ o.logs = [] ∧ (reply = .error (.notInExpectedState id "Suspended") ∨
          reply = .error (.notFound id))) ∧
    (∀ os' db', Runs Enqueuing db os' db' → ∀ sid, db.sessions.get sid = none →
      ∀ call b reply, .returned sid call b reply ∈ os' → ∀ id payload,
        call.op = .signal id payload → checkSignalPayload payload = .ok () →
        ((db.table.get id).isSome → reply ≠ .error (.notFound id)) ∧
          (db'.table.get id = none → reply ≠ .error (.notInExpectedState id "Suspended"))) ∧
    (∀ ps o qs, os = ps ++ o :: qs → ∀ record, o.reply = some (.ok (.claimed (some record))) →
      ∀ workerId hasWriter, (taskContext workerId hasWriter record).signalPayload =
        (lastSignal record.id ps).join) ∧
    ∀ id pre x, history id os = pre ++ [x] → x.Moved .suspended .pending → ∀ b, NotBefore os b →
      ∃ r, db.table.get id = some r ∧ r.scheduledAt ≤ b.now ∧
        ∀ queue w lease region, r.queue = queue.asStr → Update.regionMatches region r = true →
          (Update.claimNext queue w lease region).selects b r = true := by
  refine ⟨fun id pre x post hx hs => h.ended_once hx hs.2, ?_, ?_, ?_, ?_⟩
  · intro o ho call id payload reply hcall hop hreply hpay
    exact h.signal_replied ho hcall hop hreply hpay
  · intro os' db' h' sid hsid call b reply ho id payload hop hpay
    exact Runs.signal_exists h h' hsid ho hop hpay
  · rintro ps o qs rfl record hreply workerId hasWriter
    obtain ⟨db', r, hr', hget, hterm, -, hpayload⟩ := h.handed_columns hreply
    rw [← Runs.signalPayload_eq hr' hget hterm]
    exact hpayload
  · exact fun id pre x hx hmoved b hb => h.resumed_due hx hmoved hb

/-- The task is suspended, two signals race for it, and it is claimed again. -/
def signalledMoves : List Move :=
  claimedMoves .default ++
  serve 3 (callOf (.suspend ⟨1⟩)) 20 [.all] ++
  [.start 4 (callOf (.signal ⟨1⟩ (some ⟨"1"⟩))) ⟨30⟩, .start 5 (callOf (.signal ⟨1⟩ none)) ⟨31⟩,
    .exec 5 .all, .finish 5, .exec 4 .all, .exec 4 .all, .finish 4] ++
  serve 6 (callOf (.claimNext sampleQueue ⟨8⟩ 1000000000 none)) 40 [.all]

/-- In the sample the second execution is given the payload of the signal that has won. -/
theorem signalled_execution : ∃ ps o record, System.shown signalledMoves = ps ++ [o] ∧
    o.reply = some (.ok (.claimed (some record))) ∧ lastSignal ⟨1⟩ ps = some none ∧
    (taskContext ⟨8⟩ true record).signalPayload = none := by
  have hsaves : Runs (Calls (Call.SavesOnly [sampleTask .default])) .empty
      (System.shown signalledMoves) (System.after signalledMoves) :=
    Runs.of_moves _ (by decide +kernel) (by decide +kernel)
  have h := hsaves.enqueuing (by simpa using enqueued_sampleTask _)
  have hlast : (System.shown signalledMoves).getLast?.bind Outcome.execution? =
      some ⟨⟨1⟩, 2, ⟨8⟩⟩ := by decide +kernel
  have hsignal : lastSignal ⟨1⟩ (System.shown signalledMoves).dropLast = some none := by
    decide +kernel
  obtain ⟨o, ho, hx⟩ := Option.bind_eq_some_iff.mp hlast
  obtain ⟨ps, hps⟩ := List.getLast?_eq_some_iff.mp ho
  rw [hps, List.dropLast_concat] at hsignal
  obtain ⟨record, hreply, htask, -⟩ := o.reply_of_execution hx
  refine ⟨ps, o, record, hps, hreply, hsignal, ?_⟩
  obtain ⟨-, -, -, hpayload, -⟩ := signal_delivery h
  rw [hpayload ps o [] hps record hreply ⟨8⟩ true, htask]
  change (lastSignal ⟨1⟩ ps).join = none
  rw [hsignal]
  rfl

end IronDefer
