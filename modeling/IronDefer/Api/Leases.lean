import IronDefer.Api.Budget
import IronDefer.Api.Executions

/-!
# The leases an engine leaves behind

When an engine returns, it may have left tasks running under its worker id. A claim whose answer it
has never received may have committed: the token was cancelled while the claim was under way, or the
connection was lost. And an outcome, or the release of a task claimed too late, may have failed.
These are the only ways: the rows an engine leaves running are those of such executions that nothing
has ended since, the release of all leases included.

## Main definitions

* `Slipped`: the engine has lost the answer to the claim of an execution, or got an error for its
  outcome
* `Worker.Accounts`: why an engine holds a row
* `Fleet.Tracks`: what is known of the claims and the dispatches of a fleet

## Main results

* `Fleets.accounted`: every row an engine holds is accounted for
* `leases_released_iff`: **when an engine leaves no lease behind**
* `lease_left_behind`: a claim that was under way when the token was cancelled
-/

namespace IronDefer

open RowStore

/-- The engine has lost the answer to the claim of the execution, or it got an error for its outcome
or its release. -/
def Slipped (os : List FleetOutput) (shown : List Outcome) (x : Execution) : Prop :=
  (∃ sid, .unanswered x.worker sid ∈ os ∧ Claims shown sid x) ∨ .unreported x ∈ os

theorem Slipped.append {os : List FleetOutput} {shown : List Outcome} {x : Execution}
    (h : Slipped os shown x) (ps : List FleetOutput) (qs : List Outcome) :
    Slipped (os ++ ps) (shown ++ qs) x := by
  rcases h with ⟨sid, hlost, hclaims⟩ | hlost
  · exact .inl ⟨sid, List.mem_append_left _ hlost, hclaims.append qs⟩
  · exact .inr (List.mem_append_left _ hlost)

/-! ## Tracking claims -/

/-- Clients insert pending tasks only; every claim belongs to an engine that waits for it, or has
ended, or the engine has given it up; every task in a join set has been dispatched; and an outcome
is reported for an execution that has been handed out. -/
structure Fleet.Tracks (f : Fleet) (os : List FleetOutput) : Prop where
  pending : ∀ b ∈ f.server.begun, b.op.SavesPending
  claims : ∀ b ∈ f.server.begun, ∀ queue w lease region,
    b.op.op = .claimNext queue w lease region → ∃ wk ∈ f.workers.rows, wk.id = w ∧
      (.unanswered w b.sid ∈ os ∨ (∃ o ∈ f.server.shown, o.sid? = some b.sid) ∨
        wk.stage = .claiming b.sid ∨ wk.stage = .crashed)
  dispatched : ∀ wk ∈ f.workers.rows, ∀ d ∈ wk.joinSet.rows,
    ⟨d.claim, wk.id, d.task⟩ ∈ allDispatches os
  unreported : ∀ x, .unreported x ∈ os → x ∈ executions f.server.shown

namespace Worker

variable {wk wk' : Worker} {sv sv' : TaskServer} {e : Event} {o : FleetOutput}

theorem savesPending_of_tasks {c : Call} (h : c.op.tasks = []) : c.SavesPending := by
  intro task ht
  rw [h] at ht
  cases ht

theorem tasks_of_reports {op : Op} {id : TaskId} (h : op.Reports id) : op.tasks = [] := by
  cases op with
  | save | saveIdempotent | inTx => exact h.elim
  | _ => rfl

theorem not_claim_of_reports {op : Op} {id : TaskId} (h : op.Reports id) {queue : QueueName}
    {w : WorkerId} {lease : Duration} {region : Option String} :
    op ≠ .claimNext queue w lease region := by
  rintro rfl
  exact h

/-- What an engine calls: no task is inserted, and a claim is one it waits for. -/
theorem Step.begun (h : wk.Step sv e wk' sv' o) {b : RowStore.Begun TaskRow.id Call}
    (hb : b ∈ sv'.begun) : b ∈ sv.begun ∨ b.op.SavesPending ∧ ∀ queue w lease region,
      b.op.op = .claimNext queue w lease region → w = wk'.id ∧ wk'.stage = .claiming b.sid := by
  -- an answer begins nothing, and a call begins one transaction
  have hhear : ∀ {sid lost r sv'}, sv.hear sid lost = some (r, sv') → b ∈ sv'.begun →
      b ∈ sv.begun := by
    intro sid lost r sv' hh hb
    rcases TaskServer.extends_of_hear hh with rfl | rfl <;> exact hb
  have hcall : ∀ {c : Call} {b' : Began} {sv' : TaskServer}, sv.call c b' = some sv' →
      b ∈ sv'.begun → b ∈ sv.begun ∨ b = ⟨sv.next, c, sv.db.table⟩ := by
    intro c b' sv' hc hb
    obtain ⟨_, -, -, -, hbegun⟩ := Server.call_eq_some hc
    rw [hbegun] at hb
    exact (List.mem_cons.mp hb).symm
  -- a report claims nothing
  have hreports : ∀ {task op} {b' : Began} {sv' : TaskServer} {wk' : Worker}, op.Reports task.id →
      sv.call (wk.callFor task op) b' = some sv' → b ∈ sv'.begun →
      b ∈ sv.begun ∨ b.op.SavesPending ∧ ∀ queue w lease region,
        b.op.op = .claimNext queue w lease region → w = wk'.id ∧ wk'.stage = .claiming b.sid := by
    intro task op b' sv' wk' hop hc hb
    rcases hcall hc hb with hb | rfl
    · exact .inl hb
    · refine .inr ⟨savesPending_of_tasks (tasks_of_reports hop), ?_⟩
      intro queue w lease region heq
      exact absurd heq (not_claim_of_reports hop)
  cases h with
  | tick _ _ hc =>
    rcases hcall hc hb with hb | rfl
    · exact .inl hb
    · refine .inr ⟨savesPending_of_tasks rfl, ?_⟩
      rintro queue w lease region ⟨⟩
      exact ⟨rfl, rfl⟩
  | releaseAll _ _ hc =>
    rcases hcall hc hb with hb | rfl
    · exact .inl hb
    · refine .inr ⟨savesPending_of_tasks rfl, ?_⟩
      rintro queue w lease region ⟨⟩
  | claimedLate _ _ _ hc => exact hreports (reports_release _) hc hb
  | missing _ _ _ hc => exact hreports (reports_missingHandler ..) hc hb
  | report _ _ hc => exact hreports (reports_outcome ..) hc hb
  | claimFailed _ hh => exact .inl (hhear hh hb)
  | released _ hh => exact .inl (hhear hh hb)
  | reported _ _ hh => exact .inl (hhear hh hb)
  | releasedAll _ hh => exact .inl (hhear hh hb)
  | _ => exact .inl hb

/-- An engine that waits for a claim goes on waiting, gives it up, or has been answered. -/
theorem Step.claim_kept (h : wk.Step sv e wk' sv' o) {sid : ℕ} (hs : wk.stage = .claiming sid) :
    o = .unanswered wk.id sid ∨ (∃ q ∈ sv.shown, q.sid? = some sid) ∨
      wk'.stage = .claiming sid ∨ wk'.stage = .crashed := by
  have hanswer : ∀ {sid' a}, wk.stage = .claiming sid' → sv.answer? sid' = some a →
      ∃ q ∈ sv.shown, q.sid? = some sid := by
    intro sid' a hs' ha
    rw [hs] at hs'
    cases hs'
    obtain ⟨q, hq, hsid, -⟩ := Server.answer?_eq_some ha
    exact ⟨q, hq, hsid⟩
  cases h with
  -- the claim is given up, or its connection is lost
  | dropClaim hs' =>
    rw [hs] at hs'
    cases hs'
    exact .inl rfl
  | claimFailed hs' =>
    rw [hs] at hs'
    cases hs'
    exact .inl rfl
  | unclaimed hs' ha => exact .inr (.inl (hanswer hs' ha))
  | claimedLate hs' _ ha => exact .inr (.inl (hanswer hs' ha))
  | spawn hs' _ ha => exact .inr (.inl (hanswer hs' ha))
  | crash => exact .inr (.inr (.inr rfl))
  | cancel | execute | missing | handled | handledAlone | report | reported =>
    exact .inr (.inr (.inl hs))
  -- the other steps are taken in other stages
  | stop _ hs' =>
    rw [hs] at hs'
    rcases hs' with hs' | hs' <;> cases hs'
  | _ hs' =>
    rw [hs] at hs'
    cases hs'

theorem Step.crashed (h : wk.Step sv e wk' sv' o) (hs : wk.stage = .crashed) :
    wk'.stage = .crashed := by
  cases h with
  | crash => rfl
  | cancel | execute | missing | handled | handledAlone | report | reported => exact hs
  | stop _ hs' =>
    rw [hs] at hs'
    rcases hs' with hs' | hs' <;> cases hs'
  | _ hs' =>
    rw [hs] at hs'
    cases hs'

/-- The dispatches of an engine are those it had, and the one it has just shown. -/
theorem Step.joinSet (h : wk.Step sv e wk' sv' o) {d : Dispatch} (hd : d ∈ wk'.joinSet.rows) :
    (∃ d' ∈ wk.joinSet.rows, d'.claim = d.claim ∧ d'.task = d.task) ∨
      o = .dispatched d.claim wk.id d.task := by
  -- a dispatch that moves on keeps its claim and its task
  have hadvance : ∀ {c d' joinSet stage}, wk.joinSet.get c = some d' →
      joinSet = wk.joinSet.put { d' with stage } → d ∈ joinSet.rows →
      ∃ d' ∈ wk.joinSet.rows, d'.claim = d.claim ∧ d'.task = d.task := by
    rintro c d' _ stage hd' rfl hd
    rcases Table.mem_put.mp hd with rfl | ⟨hd, -⟩
    · exact ⟨d', (Table.get_eq_some hd').1, rfl, rfl⟩
    · exact ⟨d, hd, rfl, rfl⟩
  cases h with
  | full => exact .inl ⟨d, (Table.mem_filter.mp hd).1, rfl, rfl⟩
  | tick => exact .inl ⟨d, (Table.mem_filter.mp hd).1, rfl, rfl⟩
  | spawn =>
    rcases Table.mem_put.mp hd with rfl | ⟨hd, -⟩
    · exact .inr rfl
    · exact .inl ⟨d, hd, rfl, rfl⟩
  | execute hd' => exact .inl (hadvance hd' rfl hd)
  | missing hd' => exact .inl (hadvance hd' rfl hd)
  | handled _ hd' => exact .inl (hadvance hd' rfl hd)
  | report hd' => exact .inl (hadvance hd' rfl hd)
  | reported hd' => exact .inl (hadvance hd' rfl hd)
  | drained => cases hd
  | abort => exact .inl ⟨d, (Table.mem_erase.mp hd).1, rfl, rfl⟩
  | crash => cases hd
  | _ => exact .inl ⟨d, hd, rfl, rfl⟩

/-- What an engine reports an error for, it has been handed out. -/
theorem Step.unreported (h : wk.Step sv e wk' sv' o) (hsound : wk.Sound sv) {x : Execution}
    (ho : o = .unreported x) : x ∈ executions sv.shown := by
  cases h with
  | @released _ _ _ r _ hs =>
    cases r with
    | ok => cases ho
    | error =>
      cases ho
      exact (hsound.releasing _ _ hs).1
  | @reported _ _ _ _ r _ hd =>
    cases r with
    | ok => cases ho
    | error =>
      cases ho
      exact hsound.dispatches _ (Table.get_eq_some hd).1
  | _ => cases ho

end Worker

namespace Fleet

variable {f f' : Fleet} {os : List FleetOutput} {e : Event} {o : FleetOutput}

theorem tracks_idle : idle.Tracks [] where
  pending _ hb := nomatch hb
  claims _ hb := nomatch hb
  dispatched _ hwk := nomatch hwk
  unreported _ hx := nomatch hx

theorem mem_allDispatches_append {d : Dispatched} (hd : d ∈ allDispatches os) (o : FleetOutput) :
    d ∈ allDispatches (os ++ [o]) := by
  rw [allDispatches_append]
  exact List.mem_append_left _ hd

theorem not_claim_of_client {c : Call} (h : c.OfClient) {queue : QueueName} {w : WorkerId}
    {lease : Duration} {region : Option String} : c.op ≠ .claimNext queue w lease region := by
  intro heq
  have hop := h.op
  rw [heq] at hop
  exact hop

theorem Tracks.step (h : f.Tracks os) (hsound : f.Sound) (hs : f.Step e f' o) :
    f'.Tracks (os ++ [o]) := by
  have hext := hs.extends
  -- what was known stays known, where the engines are the same
  have hclaims : ∀ b ∈ f.server.begun, ∀ queue w lease region,
      b.op.op = .claimNext queue w lease region → ∃ wk ∈ f.workers.rows, wk.id = w ∧
        (.unanswered w b.sid ∈ os ++ [o] ∨ (∃ q ∈ f'.server.shown, q.sid? = some b.sid) ∨
          wk.stage = .claiming b.sid ∨ wk.stage = .crashed) := by
    intro b hb queue w lease region hop
    obtain ⟨wk, hwk, hid, hlost | ⟨q, hq, hsid⟩ | hwaits⟩ := h.claims b hb queue w lease region hop
    · exact ⟨wk, hwk, hid, .inl (List.mem_append_left _ hlost)⟩
    · exact ⟨wk, hwk, hid, .inr (.inl ⟨q, hext.mem_shown hq, hsid⟩)⟩
    · exact ⟨wk, hwk, hid, .inr (.inr hwaits)⟩
  have hunreported : ∀ x, .unreported x ∈ os → x ∈ executions f'.server.shown :=
    fun x hx => executions_mono hext (h.unreported x hx)
  have hdispatched : ∀ wk ∈ f.workers.rows, ∀ d ∈ wk.joinSet.rows,
      ⟨d.claim, wk.id, d.task⟩ ∈ allDispatches (os ++ [o]) :=
    fun wk hwk d hd => mem_allDispatches_append (h.dispatched wk hwk d hd) o
  cases hs with
  | @call c b sv hc hcall =>
    obtain ⟨_, -, -, -, hbegun⟩ := Server.call_eq_some hcall
    refine ⟨?_, ?_, hdispatched, fun x hx => hunreported x (by simpa using hx)⟩
    · intro b hb
      change b ∈ sv.begun at hb
      rw [hbegun] at hb
      rcases List.mem_cons.mp hb with rfl | hb
      · exact hc.pending
      · exact h.pending b hb
    · intro b hb queue w lease region hop
      change b ∈ sv.begun at hb
      rw [hbegun] at hb
      rcases List.mem_cons.mp hb with rfl | hb
      · exact absurd hop (not_claim_of_client hc)
      · exact hclaims b hb queue w lease region hop
  | @database ev sv hp =>
    obtain ⟨-, _, -, -, -, hbegun⟩ := Server.proceed_eq_some hp
    refine ⟨?_, ?_, hdispatched, fun x hx => hunreported x (by simpa using hx)⟩
    · intro b hb
      change b ∈ sv.begun at hb
      rw [hbegun] at hb
      exact h.pending b hb
    · intro b hb
      change b ∈ sv.begun at hb
      rw [hbegun] at hb
      exact hclaims b hb
  | start hn =>
    refine ⟨h.pending, ?_, ?_, fun x hx => hunreported x (by simpa using hx)⟩
    · intro b hb queue w lease region hop
      obtain ⟨wk, hwk, hid, hwaits⟩ := hclaims b hb queue w lease region hop
      refine ⟨wk, Table.mem_put.mpr (.inr ⟨hwk, ?_⟩), hid, hwaits⟩
      exact (Table.get_eq_none_iff.mp hn wk hwk).symm
    · intro wk hwk d hd
      rcases Table.mem_put.mp hwk with rfl | ⟨hwk, -⟩
      · cases hd
      · exact hdispatched wk hwk d hd
  | @worker w e wk wk' sv o hw hs =>
    obtain ⟨hwk, rfl⟩ := Table.get_eq_some hw
    have hid : wk'.id = wk.id := hs.same.1
    refine ⟨?_, ?_, ?_, ?_⟩
    · intro b hb
      rcases hs.begun hb with hb | ⟨hpending, -⟩
      · exact h.pending b hb
      · exact hpending
    · intro b hb queue w lease region hop
      have hself : wk' ∈ (f.workers.put wk').rows := Table.mem_put.mpr (.inl rfl)
      rcases hs.begun hb with hb | ⟨-, hnew⟩
      · obtain ⟨v, hv, rfl, hwaits⟩ := hclaims b hb queue w lease region hop
        by_cases hvw : v.id = wk.id
        · -- the engine that makes the step
          obtain rfl : v = wk := Table.eq_of_key_eq hv hwk hvw
          refine ⟨wk', hself, hid, ?_⟩
          rcases hwaits with hlost | hended | hclaiming | hcrashed
          · exact .inl hlost
          · exact .inr (.inl hended)
          · rcases hs.claim_kept hclaiming with rfl | ⟨q, hq, hsid⟩ | hkept
            · exact .inl (by simp)
            · exact .inr (.inl ⟨q, hs.extends.mem_shown hq, hsid⟩)
            · exact .inr (.inr hkept)
          · exact .inr (.inr (.inr (hs.crashed hcrashed)))
        · refine ⟨v, Table.mem_put.mpr (.inr ⟨hv, ?_⟩), rfl, hwaits⟩
          rw [hid]
          exact fun heq => hvw heq.symm
      · obtain ⟨rfl, hclaiming⟩ := hnew queue w lease region hop
        exact ⟨wk', hself, rfl, .inr (.inr (.inl hclaiming))⟩
    · intro v hv d hd
      rcases Table.mem_put.mp hv with rfl | ⟨hv, -⟩
      · rw [hid]
        rcases hs.joinSet hd with ⟨d', hd', hclaim, htask⟩ | rfl
        · rw [← hclaim, ← htask]
          exact hdispatched wk hwk d' hd'
        · rw [allDispatches_append]
          exact List.mem_append_right _ (by simp [FleetOutput.dispatched?])
      · exact hdispatched v hv d hd
    · intro x hx
      rcases List.mem_append.mp hx with hx | hx
      · exact hunreported x hx
      · have hnew := hs.unreported (hsound.workers wk hwk) (List.mem_singleton.mp hx).symm
        exact executions_mono hext hnew

end Fleet

theorem Fleets.tracks {os : List FleetOutput} {f : Fleet} (h : Fleets os f) : f.Tracks os := by
  induction h with
  | init => exact Fleet.tracks_idle
  | next hr _ hs ih => exact ih.step (Fleets.sound hr) (Fleet.step_of_step hs)

/-! ## Releasing all leases -/

/-- The release `sid` will not leave the row `r` running: its transaction has found the row, or it
has begun when the row was there and has not executed its statement yet; or it has failed. -/
def TaskServer.Releases (sv : TaskServer) (sid : ℕ) (r : TaskRow) : Prop :=
  (∃ o ∈ sv.shown, o.sid? = some sid ∧ ∀ resp, o.reply ≠ some (.ok resp)) ∨
    ∃ s ∈ sv.db.sessions.rows, s.id = sid ∧ ((∃ v ∈ s.news, v.id = r.id) ∨
      s.rest = Call.program s.op ∧ s.news = [] ∧ ∃ b ∈ sv.begun, b.sid = sid ∧
        ∃ r₀ ∈ b.table.rows, r₀.id = r.id ∧ SameLife r₀ r)

section Releases

variable {sv sv' : TaskServer} {sid : ℕ} {r r' : TaskRow}

theorem SameLife.trans {r r' r'' : TaskRow} (h : SameLife r r') (h' : SameLife r' r'') :
    SameLife r r'' :=
  Eq.trans h h'

/-- The release of a row that is stored when it begins. -/
theorem TaskServer.releases_of_call {c : Call} {b : Began} (h : sv.call c b = some sv')
    (hr : r ∈ sv.db.table.rows) : sv'.Releases sv.next r := by
  obtain ⟨o, hs, -, -, hbegun⟩ := Server.call_eq_some h
  generalize hdb : sv'.db = db' at hs
  cases hs with
  | start hn =>
    refine .inr ⟨⟨sv.next, c, b, Call.program c, [], []⟩, ?_, rfl, .inr ⟨rfl, rfl, ?_⟩⟩
    · rw [hdb]
      exact Table.mem_put.mpr (.inl rfl)
    · exact ⟨_, hbegun ▸ List.mem_cons_self, rfl, r, hr, rfl, rfl⟩

theorem TaskServer.Releases.call {c : Call} {b : Began} (h : sv.Releases sid r)
    (hc : sv.call c b = some sv') : sv'.Releases sid r := by
  have hext : sv.Extends sv' := .call hc
  rcases h with ⟨o, ho, hfailed⟩ | ⟨s, hm, rfl, hs⟩
  · exact .inl ⟨o, hext.mem_shown ho, hfailed⟩
  · obtain ⟨o, hstart, -, -, -⟩ := Server.call_eq_some hc
    have hm' : s ∈ sv'.db.sessions.rows := by
      generalize sv'.db = db' at hstart
      cases hstart with
      | start hn => exact Table.mem_put.mpr (.inr ⟨hm, (Table.get_eq_none_iff.mp hn s hm).symm⟩)
    refine .inr ⟨s, hm', rfl, hs.imp_right ?_⟩
    rintro ⟨hrest, hnews, x, hx, hid, hold⟩
    exact ⟨hrest, hnews, x, hext.begun x hx, hid, hold⟩

/-- The statement of the release finds every row of the worker its snapshot shows. -/
theorem exists_released {b : Began} {env : Env} {rows : List TaskRow} {free : TaskId → Bool}
    {w : WorkerId} {rs : List TaskRow}
    (h : execUpdate b env rows free (.releaseLeasesForWorker w) = .ok rs) (hr : r ∈ rows)
    (hrun : r.status = .running) (hw : r.claimedBy = some w) (hseen : env.seen r.id = true) :
    ∃ v ∈ rs, v.id = r.id := by
  have htarget : r ∈ targets b env rows free (.releaseLeasesForWorker w) := by
    refine List.mem_filter.mpr ⟨hr, ?_⟩
    simp [Update.selects, hrun, hw, hseen]
  obtain ⟨v, hv, hrw, -⟩ := exists_of_mem_right (rewrites_of_execUpdate h).flip htarget
  exact ⟨v, hv, hrw.sameTask.id⟩

/-- The release of all leases leaves no row it has written running. -/
theorem not_running_of_released {op : Op} {b : Began} {c : Change TaskRow} {w : WorkerId}
    (hop : op = .releaseLeasesForWorker w) (hc : op.Causes b c) : c.new.status ≠ .running := by
  subst hop
  cases hc with
  | insert ht => cases ht
  | update hu hrw =>
    obtain rfl := List.mem_singleton.mp hu
    cases hrw
    simp

/-- Where the release of all leases ends, it has failed: by a commit it would have left the row not
running. -/
theorem TaskServer.releases_of_ended {ev : Move} {o : Outcome} {w : WorkerId}
    {s : Session Stmt Stmt.Res Call Began TaskRow AuditRow Reply} (hserved : sv'.Served)
    (hs : sv.db.Step postgres Call.program ev sv'.db o) (ho : o ∈ sv'.shown)
    (hm : s ∈ sv.db.sessions.rows) (hop : s.op.op = .releaseLeasesForWorker w)
    (hcovers : (∃ v ∈ s.news, v.id = r.id) ∨ s.rest = Call.program s.op)
    (hr : r ∈ sv'.db.table.rows) (hrun : r.status = .running) (hended : o.sid? = some s.id) :
    sv'.Releases s.id r := by
  have hspec := hserved.spec_idle o ho
  have hcauses := Runs.causes hserved o ho
  generalize hdb : sv'.db = db' at hs hr
  cases hs with
  | start => cases hended
  | exec => cases hended
  | @commit s' _ hm' hrest' =>
    obtain rfl : s' = s :=
      Table.eq_of_key_eq hm' hm (Option.some.inj hended)
    rcases hcovers with ⟨v, hv, hvid⟩ | hrest
    · rcases Table.mem_putAll hr with hnew | ⟨-, hne⟩
      · rw [← Table.news_record sv.db.table s'.news] at hnew
        obtain ⟨d, hd, rfl⟩ := mem_news.mp hnew
        exact absurd hrun (not_running_of_released hop (hcauses d hd))
      · exact absurd hvid (hne v hv)
    -- a release that has not executed its statement has nothing to commit
    · rw [hrest', Call.program, hop] at hrest
      cases hrest
  | @rollback s' reply hm' hrest' =>
    obtain rfl : s' = s :=
      Table.eq_of_key_eq hm' hm (Option.some.inj hended)
    obtain ⟨cs, ls, hspec⟩ := hspec trivial
    rw [hop] at hspec
    cases hspec with
    | refused href => cases href
  | _ => exact .inl ⟨_, ho, hended, fun _ hreply => nomatch hreply⟩

/-- **The release reaches the rows it has to**: a row of its worker stays one the release will not
leave running, while it runs. -/
theorem TaskServer.Releases.proceed {ev : Move} {c : Call} {w : WorkerId} (h : sv.Releases sid r)
    (hfresh : sv.Fresh) (hserved : sv.Served) (hcall : sv.Called sid c)
    (hop : c.op = .releaseLeasesForWorker w) (hp : sv.proceed ev = some sv')
    (hr : r ∈ sv.db.table.rows) (hrun : r.status = .running) (hw : r.claimedBy = some w)
    (hr' : r' ∈ sv'.db.table.rows) (hid : r'.id = r.id) (hlife : SameLife r r') :
    sv'.Releases sid r' := by
  have hext : sv.Extends sv' := .proceed hp
  obtain ⟨hpermits, o, hs, hshown, -, -⟩ := Server.proceed_eq_some hp
  rcases h with ⟨q, hq, hfailed⟩ | ⟨s, hm, rfl, hcovers⟩
  · exact .inl ⟨q, hext.mem_shown hq, hfailed⟩
  obtain ⟨x, hx, hxid, rfl⟩ := hcall
  have hsop : s.op = x.op := hfresh.session_op hx hm hxid.symm
  rcases hs.session_kept hm with hkept | hended | ⟨e, q, k, eff, rfl, hrest, he, hdb⟩
  · -- the transaction is as it was
    rw [← hid] at hcovers
    refine .inr ⟨s, hkept, rfl, hcovers.imp_right ?_⟩
    rintro ⟨hrest, hnews, y, hy, hyid, r₀, hr₀, hid₀, hlife₀⟩
    exact ⟨hrest, hnews, y, hext.begun y hy, hyid, r₀, hr₀, hid₀, hlife₀.trans hlife⟩
  · -- it has ended
    have ho : o ∈ sv'.shown := by
      rw [hshown]
      exact List.mem_append_right _ List.mem_cons_self
    have hrun' : r'.status = .running := (congrArg Life.status hlife).symm.trans hrun
    rw [← hid] at hcovers
    exact releases_of_ended (hserved.proceed hp) hs ho hm (hsop ▸ hop)
      (hcovers.imp_right And.left) hr' hrun' hended
  · -- it executes a statement, and the committed rows are as they were
    have htable : sv'.db.table = sv.db.table := by rw [hdb]; rfl
    rw [htable] at hr'
    obtain rfl : r' = r := Table.eq_of_key_eq hr' hr hid
    refine .inr ⟨{ s with
      rest := k eff.result
      news := s.news ++ eff.news
      logs := s.logs ++ numbered sv.db.nextId eff.logs }, ?_, rfl, .inl ?_⟩
    · rw [hdb]
      exact Table.mem_put.mpr (.inl rfl)
    · rcases hcovers with ⟨v, hv, hvid⟩ | ⟨hprogram, hnews, y, hy, hyid, r₀, hr₀, hid₀, hlife₀⟩
      · exact ⟨v, List.mem_append_left _ hv, hvid⟩
      -- the release sends its only statement, whose snapshot shows the row
      · rw [hrest, hsop, Call.program, hop] at hprogram
        cases hprogram
        obtain ⟨rs, hrs, he⟩ := exists_of_bind_ok he
        cases he
        rw [Db.view, hnews] at hrs
        have hseen := hpermits.2 y hy hyid r₀ hr₀ r' hr hid₀ hlife₀
        obtain ⟨v, hv, hvid⟩ := exists_released hrs hr hrun hw hseen
        exact ⟨v, List.mem_append_right _ hv, hvid⟩

end Releases

/-! ## Accounts -/

/-- The execution under which an engine holds a row. -/
def Worker.holds (wk : Worker) (r : TaskRow) : Execution := ⟨r.id, r.attempts.val, wk.id⟩

/-- Where an engine is, it may hold the row `r`: the answer to its claim is on its way; the lease is
being released; all leases are about to be released, or their release is under way; or the engine
has died, or its release has failed. -/
def Worker.Explains (wk : Worker) (sv : TaskServer) (r : TaskRow) : Stage → Prop
  | .claiming sid => Claims sv.shown sid (wk.holds r)
  | .releasing _ task => wk.execution task = wk.holds r
  | .releasingAll sid => sv.Releases sid r
  | .aborting | .joining (some false) | .returned (some false) | .crashed => True
  | _ => False

/-- Why an engine holds a row: it has slipped, its dispatch is not done, or the stage of the engine
explains it. -/
inductive Worker.Accounts (wk : Worker) (sv : TaskServer) (os : List FleetOutput) (r : TaskRow) :
    Prop
  | slipped : Slipped os sv.shown (wk.holds r) → Accounts wk sv os r
  | dispatched {d} : d ∈ wk.joinSet.rows → d.stage ≠ .finished →
      wk.execution d.task = wk.holds r → Accounts wk sv os r
  | staged : wk.Explains sv r wk.stage → Accounts wk sv os r

namespace Worker

variable {wk wk' : Worker} {sv sv' : TaskServer} {os : List FleetOutput} {e : Event}
  {o : FleetOutput} {r r' : TaskRow}

theorem Slipped.extends {x : Execution} (h : Slipped os sv.shown x) (hext : sv.Extends sv')
    (o : FleetOutput) : Slipped (os ++ [o]) sv'.shown x := by
  obtain ⟨qs, hqs⟩ := hext.shown
  rw [hqs]
  exact h.append [o] qs

theorem Explains.mono {stage : Stage} (h : wk.Explains sv r stage) (hext : sv.Extends sv')
    (hid : wk'.id = wk.id) (hholds : wk.holds r' = wk.holds r)
    (hreleases : ∀ sid, stage = .releasingAll sid → sv.Releases sid r → sv'.Releases sid r') :
    wk'.Explains sv' r' stage := by
  have hholds' : wk'.holds r' = wk.holds r := by
    rw [← hholds, holds, hid]
    rfl
  cases stage with
  | claiming sid =>
    obtain ⟨qs, hqs⟩ := hext.shown
    change Claims sv'.shown sid (wk'.holds r')
    rw [hholds', hqs]
    exact Claims.append h qs
  | releasing sid task =>
    change wk'.execution task = wk'.holds r'
    rw [hholds', execution, hid]
    exact h
  | releasingAll sid => exact hreleases sid rfl h
  | joining released | returned released =>
    cases released with
    | none => exact h
    | some ok => cases ok <;> exact h
  | _ => exact h

/-- The reasons of an engine, by their kind. -/
theorem Accounts.goto (h : wk.Accounts sv os r) (hext : sv.Extends sv') (o : FleetOutput)
    (hholds : wk'.holds r' = wk.holds r)
    (hjoin : ∀ d ∈ wk.joinSet.rows, d.stage ≠ .finished → wk.execution d.task = wk.holds r →
      wk'.Accounts sv' (os ++ [o]) r')
    (hstaged : wk.Explains sv r wk.stage → wk'.Accounts sv' (os ++ [o]) r') :
    wk'.Accounts sv' (os ++ [o]) r' := by
  cases h with
  | slipped hslip =>
    refine .slipped ?_
    rw [hholds]
    exact Slipped.extends hslip hext o
  | dispatched hd hne heq => exact hjoin _ hd hne heq
  | staged h => exact hstaged h

/-- An engine whose call has got an answer without an error is not explained by the release. -/
theorem not_releases_of_ok {sid : ℕ} (hfresh : sv.Fresh) {resp : Response}
    (ha : sv.answer? sid = some (some (.ok resp))) : ¬ sv.Releases sid r := by
  obtain ⟨o, ho, hsid, hreply⟩ := Server.answer?_eq_some ha
  rintro (⟨q, hq, hqsid, hfailed⟩ | ⟨s, hm, hid, -⟩)
  · obtain rfl := hfresh.once q hq o ho sid hqsid hsid
    exact hfailed resp hreply
  · exact (hfresh.ended o ho sid hsid).2 s hm hid

/-- An outcome that is not answered with an error has ended the execution it reports. -/
theorem replied_cases {sid : ℕ} {lost : Bool} {reply : Reply} {task : TaskRecord} {op : Op}
    (hh : sv.hear sid lost = some (reply, sv')) (hfresh : sv.Fresh) (hserved : sv.Served)
    (hcall : sv.Called sid (wk.callFor task op)) (hop : op.Reports task.id)
    (hr : r ∈ sv.db.table.rows) (hheld : r.HeldBy (wk.holds r))
    (hexec : wk.execution task = wk.holds r) :
    replied (wk.execution task) reply = .unreported (wk.holds r) := by
  cases reply with
  | error => exact congrArg _ hexec
  | ok resp =>
    obtain ⟨ha, -⟩ := answer?_of_hear hh
    obtain ⟨o, ho, hsid, hreply⟩ := Server.answer?_eq_some ha
    refine absurd hheld (hserved.not_heldBy_of_reported ho (hcall.op_eq hfresh ho hsid) ?_ ?_ hreply ?_)
    · exact congrArg some hexec
    · have hid : task.id = r.id := congrArg Execution.task hexec
      change op.Reports r.id
      rw [← hid]
      exact hop
    · exact Table.get_key_of_mem hr

/-- A dispatch that is not done goes on, where it is not the one that ends. -/
theorem exists_advance {claim : ℕ} {d d₀ : Dispatch} {stage : DispatchStage}
    (hd₀ : wk.joinSet.get claim = some d₀) (hd : d ∈ wk.joinSet.rows) (hne : d.stage ≠ .finished)
    (hstage : stage ≠ .finished ∨ d ≠ d₀) :
    ∃ d' ∈ (wk.advance d₀ stage).joinSet.rows, d'.stage ≠ .finished ∧ d'.task = d.task := by
  obtain ⟨hd₀, -⟩ := Table.get_eq_some hd₀
  by_cases hc : d₀.claim = d.claim
  · obtain rfl : d₀ = d := Table.eq_of_key_eq hd₀ hd hc
    rcases hstage with hstage | hself
    · exact ⟨_, Table.mem_put.mpr (.inl rfl), hstage, rfl⟩
    · exact absurd rfl hself
  · exact ⟨d, Table.mem_put.mpr (.inr ⟨hd, hc⟩), hne, rfl⟩

/-- **What an engine does is accounted for**: it holds no row without a reason. -/
theorem Accounts.step (h : wk.Accounts sv os r) (hs : wk.Step sv e wk' sv' o) (hsound : wk.Sound sv)
    (hfresh : sv.Fresh) (hserved : sv.Served)
    (hserver : (∃ sids, sv' = sv.leave sids) ∨ ∃ c b, sv.call c b = some sv')
    (hclaims : ∀ sid, wk.stage = .claiming sid → ∀ d ∈ wk.joinSet.rows, d.claim ≠ sid)
    (hr : r ∈ sv.db.table.rows) (hheld : r.HeldBy (wk.holds r)) :
    wk'.Accounts sv' (os ++ [o]) r := by
  have hext := hs.extends
  have hid : wk'.id = wk.id := hs.same.1
  have hholds : wk'.holds r = wk.holds r := by
    rw [holds, hid]
    rfl
  have hreleases : ∀ sid, sv.Releases sid r → sv'.Releases sid r := by
    intro sid hrel
    rcases hserver with ⟨sids, rfl⟩ | ⟨c, b, hc⟩
    · exact hrel
    · exact hrel.call hc
  -- where the stage stays, its explanation does; where a dispatch stays, it still accounts for its row
  have hstay : wk'.stage = wk.stage → wk.Explains sv r wk.stage → wk'.Accounts sv' (os ++ [o]) r := by
    intro hstage hexpl
    refine .staged ?_
    rw [hstage]
    exact hexpl.mono hext hid rfl fun sid _ => hreleases sid
  have hkeep : ∀ d ∈ wk'.joinSet.rows, d.stage ≠ .finished → wk.execution d.task = wk.holds r →
      wk'.Accounts sv' (os ++ [o]) r := by
    intro d hd hne heq
    refine .dispatched hd hne ?_
    rw [hholds, execution, hid]
    exact heq
  have hlost : o = .unreported (wk.holds r) → wk'.Accounts sv' (os ++ [o]) r := by
    rintro rfl
    refine .slipped ?_
    rw [hholds]
    exact .inr (by simp)
  have hunanswered : ∀ sid, o = .unanswered wk.id sid → Claims sv.shown sid (wk.holds r) →
      wk'.Accounts sv' (os ++ [o]) r := by
    rintro sid rfl hc
    obtain ⟨qs, hqs⟩ := hext.shown
    refine .slipped ?_
    rw [hholds, hqs]
    exact .inl ⟨sid, by simp [holds], hc.append qs⟩
  have hadvance : ∀ {claim : ℕ} {d₀ stage}, wk.joinSet.get claim = some d₀ →
      wk'.joinSet.rows = (wk.advance d₀ stage).joinSet.rows → stage ≠ .finished →
      ∀ d ∈ wk.joinSet.rows, d.stage ≠ .finished → wk.execution d.task = wk.holds r →
        wk'.Accounts sv' (os ++ [o]) r := by
    intro claim d₀ stage hd₀ hjoin hstage d hd hne heq
    obtain ⟨d', hd', hne', htask⟩ := exists_advance hd₀ hd hne (.inl hstage)
    exact hkeep d' (hjoin ▸ hd') hne' (htask ▸ heq)
  cases hs with
  | cancel => exact h.goto hext _ hholds hkeep (hstay rfl)
  | resume hs =>
    apply h.goto hext _ hholds hkeep
    intro hexpl
    rw [hs] at hexpl
    exact hexpl.elim
  | stop _ hs =>
    apply h.goto hext _ hholds hkeep
    intro hexpl
    rcases hs with hs | hs <;> rw [hs] at hexpl <;> exact hexpl.elim
  | full hs =>
    refine h.goto hext _ hholds (fun d hd hne heq => ?_) (hstay rfl)
    exact hkeep d (Table.mem_filter.mpr ⟨hd, by simpa using hne⟩) hne heq
  | tick hs =>
    refine h.goto hext _ hholds (fun d hd hne heq => ?_) fun hexpl => ?_
    · exact hkeep d (Table.mem_filter.mpr ⟨hd, by simpa using hne⟩) hne heq
    · rw [hs] at hexpl
      exact hexpl.elim
  | dropClaim hs =>
    apply h.goto hext _ hholds hkeep
    intro hexpl
    rw [hs] at hexpl
    exact hunanswered _ rfl hexpl
  | claimFailed hs =>
    apply h.goto hext _ hholds hkeep
    intro hexpl
    rw [hs] at hexpl
    exact hunanswered _ rfl hexpl
  | unclaimed hs ha =>
    apply h.goto hext _ hholds hkeep
    intro hexpl
    rw [hs] at hexpl
    exact absurd hexpl (not_claims_of_unclaimed hfresh hserved (hsound.claiming _ hs) ha _)
  | claimedLate hs _ ha =>
    apply h.goto hext _ hholds hkeep
    intro hexpl
    rw [hs] at hexpl
    exact .staged (eq_of_claims hfresh hserved (hsound.claiming _ hs) ha hexpl)
  | @spawn _ _ sid task hs _ ha =>
    refine h.goto hext _ hholds (fun d hd hne heq => ?_) fun hexpl => ?_
    · exact hkeep d (Table.mem_put.mpr (.inr ⟨hd, (hclaims sid hs d hd).symm⟩)) hne heq
    · rw [hs] at hexpl
      apply hkeep ⟨sid, task, .spawned⟩ (Table.mem_put.mpr (.inl rfl)) (by simp)
      exact eq_of_claims hfresh hserved (hsound.claiming _ hs) ha hexpl
  | released hs hh =>
    apply h.goto hext _ hholds hkeep
    intro hexpl
    rw [hs] at hexpl
    have hcall := (hsound.releasing _ _ hs).2
    exact hlost (replied_cases hh hfresh hserved hcall (reports_release _) hr hheld hexpl)
  | execute hd => exact h.goto hext _ hholds (hadvance hd rfl (by simp)) (hstay rfl)
  | missing hd => exact h.goto hext _ hholds (hadvance hd rfl (by simp)) (hstay rfl)
  | handled _ hd => exact h.goto hext _ hholds (hadvance hd rfl (by simp)) (hstay rfl)
  | handledAlone => exact h.goto hext _ hholds hkeep (hstay rfl)
  | report hd => exact h.goto hext _ hholds (hadvance hd rfl (by simp)) (hstay rfl)
  | @reported claim _ d₀ sid reply _ hd₀ hwriting hh =>
    refine h.goto hext _ hholds (fun d hd hne heq => ?_) (hstay rfl)
    by_cases hself : d = d₀
    · subst hself
      obtain ⟨op, hop, hcall⟩ := hsound.writing d hd sid hwriting
      exact hlost (replied_cases hh hfresh hserved hcall hop hr hheld heq)
    · obtain ⟨d', hd', hne', htask⟩ := exists_advance hd₀ hd hne (.inr hself)
      exact hkeep d' hd' hne' (htask ▸ heq)
  | drained hs hnone =>
    refine h.goto hext _ hholds (fun d hd hne _ => ?_) fun hexpl => ?_
    · have hin : d ∈ wk.inFlight := List.mem_filter.mpr ⟨hd, by simpa using hne⟩
      rw [hnone] at hin
      cases hin
    · rw [hs] at hexpl
      exact hexpl.elim
  | timedOut hs => exact .staged trivial
  | abort hs => exact .staged (by rw [hs]; trivial)
  | releaseAll hs hnil hc => exact .staged (TaskServer.releases_of_call hc hr)
  | @releasedAll _ sid reply _ hs hh =>
    apply h.goto hext _ hholds hkeep
    intro hexpl
    rw [hs] at hexpl
    cases reply with
    | error => exact .staged trivial
    | ok resp => exact absurd hexpl (not_releases_of_ok hfresh (answer?_of_hear hh).1)
  | @ret released hs =>
    apply h.goto hext _ hholds hkeep
    intro hexpl
    rw [hs] at hexpl
    refine .staged ?_
    cases released with
    | none => exact hexpl.elim
    | some ok =>
      cases ok with
      | false => trivial
      | true => exact hexpl.elim
  | crash => exact .staged trivial

/-- The reasons of an engine stay, whatever the database does by itself, while the row runs. -/
theorem Accounts.proceed {ev : Move} (h : wk.Accounts sv os r) (hsound : wk.Sound sv)
    (hfresh : sv.Fresh) (hserved : sv.Served) (hp : sv.proceed ev = some sv')
    (hr : r ∈ sv.db.table.rows) (hrun : r.status = .running) (hw : r.claimedBy = some wk.id)
    (hr' : r' ∈ sv'.db.table.rows) (hid : r'.id = r.id) (hlife : SameLife r r') (o : FleetOutput) :
    wk.Accounts sv' (os ++ [o]) r' := by
  have hext : sv.Extends sv' := .proceed hp
  have hholds : wk.holds r' = wk.holds r := by
    have hatt : r'.attempts.val = r.attempts.val := (congrArg Life.attempts hlife).symm
    rw [holds, hid, hatt]
    rfl
  refine h.goto hext o hholds ?_ ?_
  · intro d hd hne heq
    refine .dispatched hd hne ?_
    rw [hholds]
    exact heq
  · intro hexpl
    refine .staged (hexpl.mono hext rfl hholds fun sid hs hrel => ?_)
    exact hrel.proceed hfresh hserved (hsound.releasingAll sid hs) rfl hp hr hrun hw hr' hid hlife

end Worker

/-- A change that leaves a row running is a claim, or leaves the life of a running row as it is. -/
theorem Op.Causes.running {op : Op} {b : Began} {c : Change TaskRow} (h : op.Causes b c)
    (hpending : ∀ task ∈ op.tasks, task.status = .pending) (hrun : c.new.status = .running) :
    (∃ queue w lease region, op = .claimNext queue w lease region ∧ c.new.claimedBy = some w) ∨
      ∃ r, c.old = some r ∧ r.status = .running ∧ c.new.id = r.id ∧ SameLife r c.new ∧
        c.new.claimedBy = r.claimedBy := by
  cases h with
  | insert ht =>
    have hstatus : TaskStatus.pending = .running := (hpending _ ht).symm.trans hrun
    cases hstatus
  | @update u r r' hu hrw =>
    have hact := Op.action_of_mem hu r
    cases hrw with
    | claimNext =>
      obtain ⟨queue, lease, region, rfl⟩ := Op.eq_claimNext_of_action hact
      exact .inl ⟨_, _, _, _, rfl, rfl⟩
    | writeCheckpoint hs => exact .inr ⟨r, rfl, hs, rfl, rfl, rfl⟩
    | cleanupExpiredIdempotencyKeys _ _ hterm =>
      have hrun' : r.status = .running := hrun
      rw [hrun'] at hterm
      cases hterm
    | _ => cases hrun

/-- Every row that runs is accounted for by the engine it runs under. -/
def Fleet.Accounted (f : Fleet) (os : List FleetOutput) : Prop :=
  ∀ r ∈ f.server.db.table.rows, r.status = .running → ∀ w, r.claimedBy = some w →
    ∃ wk ∈ f.workers.rows, wk.id = w ∧ wk.Accounts f.server os r

namespace Fleet

variable {f f' : Fleet} {os : List FleetOutput} {e : Event} {o : FleetOutput}

theorem accounted_idle : idle.Accounted [] := fun _ hr => nomatch hr

/-- A row that has just been claimed is accounted for by the engine that has claimed it. -/
theorem Tracks.claimed (h : f.Tracks os) (hsound : f.Sound) {sv : TaskServer}
    {s : Session Stmt Stmt.Res Call Began TaskRow AuditRow Reply}
    (hs : s ∈ f.server.db.sessions.rows) {queue : QueueName} {w : WorkerId} {lease : Duration}
    {region : Option String} (hop : s.op.op = .claimNext queue w lease region) {r : TaskRow}
    (hclaims : Claims sv.shown s.id ⟨r.id, r.attempts.val, w⟩) (o : FleetOutput) :
    ∃ wk ∈ f.workers.rows, wk.id = w ∧ wk.Accounts sv (os ++ [o]) r := by
  obtain ⟨b, hb, hid, hbop⟩ := hsound.fresh.opened s hs
  rw [← hbop] at hop
  obtain ⟨wk, hwk, rfl, hwaits⟩ := h.claims b hb queue w lease region hop
  refine ⟨wk, hwk, rfl, ?_⟩
  rw [← hid] at hclaims
  rcases hwaits with hlost | ⟨q, hq, hsid⟩ | hclaiming | hcrashed
  · exact .slipped (.inl ⟨b.sid, List.mem_append_left _ hlost, hclaims⟩)
  · exact absurd hid.symm ((hsound.fresh.ended q hq b.sid hsid).2 s hs)
  · exact .staged (by rw [hclaiming]; exact hclaims)
  · exact .staged (by rw [hcrashed]; trivial)

theorem Accounted.proceed (h : f.Accounted os) (hsound : f.Sound) (htracks : f.Tracks os)
    {ev : Move} {sv : TaskServer} (hp : f.server.proceed ev = some sv) (o : FleetOutput) :
    Accounted ⟨sv, f.workers⟩ (os ++ [o]) := by
  have hserved := hsound.served.proceed hp
  obtain ⟨hpermits, q, hs, hshown, -, -⟩ := Server.proceed_eq_some hp
  have hok : OnBehalf f.server.shown f.server.db ev := by
    cases ev with
    | start => exact hpermits.elim
    | _ => trivial
  -- a row that runs as it did is accounted for as it was
  have hkept : ∀ r ∈ f.server.db.table.rows, r.status = .running → ∀ r' ∈ sv.db.table.rows,
      r'.id = r.id → SameLife r r' → ∀ w, r.claimedBy = some w →
        ∃ wk ∈ f.workers.rows, wk.id = w ∧ wk.Accounts sv (os ++ [o]) r' := by
    intro r hr hrun r' hr' hid hlife w hw
    obtain ⟨wk, hwk, rfl, hacc⟩ := h r hr hrun w hw
    have hwsound := hsound.workers wk hwk
    exact ⟨wk, hwk, rfl,
      hacc.proceed hwsound hsound.fresh hsound.served hp hr hrun hw hr' hid hlife o⟩
  intro r' hr' hrun w hw
  change r' ∈ sv.db.table.rows at hr'
  have hget := Table.get_key_of_mem hr'
  rcases hsound.served.committed_step hok (Db.step_iff.mpr hs) r'.id with
    ⟨-, hsame⟩ | ⟨x, hx, hold, hnew⟩
  · obtain ⟨hr, -⟩ := Table.get_eq_some (hsame.symm.trans hget)
    exact hkept r' hr hrun r' hr' rfl rfl w hw
  · obtain rfl : x.change.new = r' := Option.some.inj (hnew.symm.trans hget)
    have hq : q ∈ sv.shown := by
      rw [hshown]
      exact List.mem_append_right _ List.mem_cons_self
    have hxm := mem_history_of_step hq hx
    have hmem : x ∈ history x.change.new.id [q] := by simp [hx]
    obtain ⟨hxq, -⟩ := mem_history_singleton.mp hmem
    have hcause := hserved.caused _ x hxm
    generalize hdb : sv.db = db' at hs
    cases hs with
    | @commit s reply hm =>
      obtain ⟨c, hc, rfl⟩ := List.mem_map.mp hxq
      obtain ⟨b, hb, -, hbop⟩ := hsound.fresh.opened s hm
      have hpending := hbop ▸ htracks.pending b hb
      rcases hcause.running hpending hrun with ⟨queue, w', lease, region, hop, hw'⟩ | hran
      · obtain rfl : w' = w := Option.some.inj (hw'.symm.trans hw)
        exact htracks.claimed hsound hm hop
          ⟨_, hq, rfl, c, hc, rfl, ⟨hrun, rfl, hw⟩⟩ o
      · obtain ⟨r, hr, hrun', hid, hlife, hclaimed⟩ := hran
        obtain ⟨hmem, -⟩ := Table.get_eq_some (hold.symm.trans hr)
        exact hkept r hmem hrun' _ hr' hid hlife w (hclaimed.symm.trans hw)
    | _ => cases hxq

theorem table_of_call {sv sv' : TaskServer} {c : Call} {b : Began} (h : sv.call c b = some sv') :
    sv'.db.table = sv.db.table := by
  obtain ⟨o, hs, -, -, -⟩ := Server.call_eq_some h
  generalize sv'.db = db' at hs
  cases hs
  rfl

/-- **Every row that runs stays accounted for.** -/
theorem Accounted.step (h : f.Accounted os) (hsound : f.Sound) (htracks : f.Tracks os)
    (hdistinct : f.Distinct os) (hs : f.Step e f' o) : f'.Accounted (os ++ [o]) := by
  -- the engines that make no step, while the database is called
  have hcalled : ∀ {sv : TaskServer}, f.server.Extends sv →
      (∀ sid r, f.server.Releases sid r → sv.Releases sid r) →
      ∀ (wk : Worker) r, wk.Accounts f.server os r → wk.Accounts sv (os ++ [o]) r := by
    intro sv hext hreleases wk r hacc
    apply hacc.goto hext o rfl (fun d hd hne heq => .dispatched hd hne heq)
    intro hexpl
    exact .staged (hexpl.mono hext rfl rfl fun sid _ => hreleases sid r)
  cases hs with
  | @call c b sv hc hcall =>
    intro r hr hrun w hw
    change r ∈ sv.db.table.rows at hr
    rw [table_of_call hcall] at hr
    obtain ⟨wk, hwk, hid, hacc⟩ := h r hr hrun w hw
    exact ⟨wk, hwk, hid, hcalled (.call hcall) (fun _ _ hrel => hrel.call hcall) wk r hacc⟩
  | database hp => exact h.proceed hsound htracks hp _
  | start hn =>
    intro r hr hrun w hw
    obtain ⟨wk, hwk, hid, hacc⟩ := h r hr hrun w hw
    refine ⟨wk, Table.mem_put.mpr (.inr ⟨hwk, ?_⟩), hid, ?_⟩
    · exact (Table.get_eq_none_iff.mp hn wk hwk).symm
    · exact hcalled (.leave []) (fun _ _ hrel => hrel) wk r hacc
  | @worker w e wk wk' sv o hw hs =>
    obtain ⟨hwk, rfl⟩ := Table.get_eq_some hw
    have hserver : (∃ sids, sv = f.server.leave sids) ∨ ∃ c b, f.server.call c b = some sv := by
      apply (hs.server (hsound.workers wk hwk) (hsound.handed hwk)).imp_right
      rintro ⟨c, b, -, hc⟩
      exact ⟨c, b, hc⟩
    have htable : sv.db.table = f.server.db.table := by
      rcases hserver with ⟨sids, rfl⟩ | ⟨c, b, hc⟩
      · rfl
      · exact table_of_call hc
    have hreleases : ∀ sid r, f.server.Releases sid r → sv.Releases sid r := by
      intro sid r hrel
      rcases hserver with ⟨sids, rfl⟩ | ⟨c, b, hc⟩
      · exact hrel
      · exact hrel.call hc
    have hid : wk'.id = wk.id := hs.same.1
    intro r hr hrun w' hw'
    change r ∈ sv.db.table.rows at hr
    rw [htable] at hr
    obtain ⟨v, hv, rfl, hacc⟩ := h r hr hrun w' hw'
    by_cases hvw : v.id = wk.id
    · obtain rfl : v = wk := Table.eq_of_key_eq hv hwk hvw
      refine ⟨wk', Table.mem_put.mpr (.inl rfl), hid, ?_⟩
      refine hacc.step hs (hsound.workers _ hwk) hsound.fresh hsound.served hserver ?_ hr
        ⟨hrun, rfl, hw'⟩
      intro sid hclaiming d hd
      exact (hdistinct.waiting _ hwk sid hclaiming _ (htracks.dispatched _ hwk d hd)).1
    · refine ⟨v, Table.mem_put.mpr (.inr ⟨hv, ?_⟩), rfl, hcalled hs.extends hreleases v r hacc⟩
      rw [hid]
      exact fun heq => hvw heq.symm

end Fleet

theorem Fleets.accounted {os : List FleetOutput} {f : Fleet} (h : Fleets os f) :
    f.Accounted os := by
  induction h with
  | init => exact Fleet.accounted_idle
  | next hr _ hs ih =>
    exact ih.step (Fleets.sound hr) (Fleets.tracks hr) (Fleets.distinct hr) (Fleet.step_of_step hs)

/-! ## Returning -/

section Returned

variable {f : Fleet} {os : List FleetOutput} {wk : Worker}

/-- A task that has slipped runs until a change ends its execution. -/
theorem Fleets.held_or_ended (h : Fleets os f) {x : Execution}
    (hslip : Slipped os f.server.shown x) :
    (∃ r, f.server.db.table.get x.task = some r ∧ r.HeldBy x) ∨ Ended f.server.shown x := by
  have hserved := (Fleets.sound h).served
  rcases hslip with ⟨sid, -, hclaims⟩ | hlost
  · exact hserved.held_or_ended_of_claims hclaims
  · exact hserved.held_or_ended_of_execution ((Fleets.tracks h).unreported x hlost)

/-- The rows an engine has left running when it returns are those of executions that have
slipped. -/
theorem Fleets.slipped_of_returned (h : Fleets os f) (hwk : wk ∈ f.workers.rows)
    {released : Option Bool} (hret : wk.stage = .returned released) (hok : released ≠ some false)
    {r : TaskRow} (hr : r ∈ f.server.db.table.rows) (hrun : r.status = .running)
    (hw : r.claimedBy = some wk.id) : Slipped os f.server.shown (wk.holds r) := by
  obtain ⟨v, hv, hid, hacc⟩ := Fleets.accounted h r hr hrun wk.id hw
  obtain rfl : v = wk := Table.eq_of_key_eq hv hwk hid
  cases hacc with
  | slipped hslip => exact hslip
  | dispatched hd =>
    have hnil := ((Fleets.sound h).workers v hwk).joined (by rw [hret]; trivial)
    rw [hnil] at hd
    cases hd
  | staged hexpl =>
    rw [hret] at hexpl
    cases released with
    | none => exact hexpl.elim
    | some ok =>
      cases ok with
      | false => exact absurd rfl hok
      | true => exact hexpl.elim

/-- **When an engine leaves no lease behind.** In every run of a fleet, when an engine has returned,
and the release of all leases has succeeded where it was called: no row runs under the worker id of
the engine, exactly if every execution of which the engine has lost the claim, or got an error for
the outcome, has been ended by some change since. -/
theorem leases_released_iff (h : Fleets os f) (hwk : wk ∈ f.workers.rows) {released : Option Bool}
    (hret : wk.stage = .returned released) (hok : released ≠ some false) :
    (∀ r ∈ f.server.db.table.rows, ¬ (r.status = .running ∧ r.claimedBy = some wk.id)) ↔
      ∀ x : Execution, x.worker = wk.id → Slipped os f.server.shown x → Ended f.server.shown x := by
  constructor
  · intro hnone x hx hslip
    rcases Fleets.held_or_ended h hslip with ⟨r, hr, hheld⟩ | hends
    · obtain ⟨hmem, -⟩ := Table.get_eq_some hr
      exact absurd ⟨hheld.status, hx ▸ hheld.claimedBy⟩ (hnone r hmem)
    · exact hends
  · rintro hends r hr ⟨hrun, hw⟩
    have hslip := Fleets.slipped_of_returned h hwk hret hok hr hrun hw
    refine (Fleets.sound h).served.not_heldBy_of_ended (hends _ rfl hslip) ?_ ⟨hrun, rfl, hw⟩
    exact Table.get_key_of_mem hr

end Returned

/-- The sample task is submitted, and an engine sends a claim that commits. -/
def claimingMoves : List Fleet.Event :=
  serveMoves 0 (callOf (.save (sampleTask .default))) 0 1 ++
  [startMove ⟨7⟩, .worker ⟨7⟩ (.tick ⟨10⟩), .database (.exec 1 .all), .database (.finish 1)]

/-- The token is cancelled while the engine waits for the answer to its claim. -/
def droppedClaimMoves : List Fleet.Event :=
  claimingMoves ++ [.worker ⟨7⟩ .cancel, .worker ⟨7⟩ .dropClaim, .worker ⟨7⟩ .drained,
    .worker ⟨7⟩ .ret]

/-- The engine executes the task, reports its completion, and is cancelled afterwards. -/
def cleanMoves : List Fleet.Event :=
  claimingMoves ++ [.worker ⟨7⟩ (.claimed false ⟨20⟩), .worker ⟨7⟩ (.dispatch 1 ⟨20⟩),
    .worker ⟨7⟩ (.handled 1 .ok), .worker ⟨7⟩ (.report 1 ⟨30⟩),
    .database (.exec 2 .all), .database (.finish 2), .worker ⟨7⟩ (.reported 1 false),
    .worker ⟨7⟩ .cancel, .worker ⟨7⟩ .stop, .worker ⟨7⟩ .drained, .worker ⟨7⟩ .ret]

/-- **A lease left behind**: a claim that was under way when the token was cancelled has committed,
and its task runs on under the id of the engine that has returned. -/
theorem lease_left_behind :
    Fleets (Fleet.outputs droppedClaimMoves) (Fleet.after droppedClaimMoves) ∧
    (∃ wk ∈ (Fleet.after droppedClaimMoves).workers.rows, wk.id = ⟨7⟩ ∧ wk.stage = .returned none) ∧
    ∃ r ∈ (Fleet.after droppedClaimMoves).server.db.table.rows,
      r.status = .running ∧ r.claimedBy = some ⟨7⟩ :=
  ⟨Fleets.of_moves _ (by decide +kernel), by decide +kernel, by decide +kernel⟩

/-- In the sample, the engine leaves no lease behind. -/
theorem clean_shutdown :
    (∃ wk ∈ (Fleet.after cleanMoves).workers.rows, wk.id = ⟨7⟩ ∧ wk.stage = .returned none) ∧
    ∀ x : Execution, x.worker = ⟨7⟩ →
      Slipped (Fleet.outputs cleanMoves) (Fleet.after cleanMoves).server.shown x →
        Ended (Fleet.after cleanMoves).server.shown x := by
  have h : Fleets (Fleet.outputs cleanMoves) (Fleet.after cleanMoves) :=
    Fleets.of_moves _ (by decide +kernel)
  have hreturned : ∃ wk ∈ (Fleet.after cleanMoves).workers.rows,
      wk.id = ⟨7⟩ ∧ wk.stage = .returned none := by decide +kernel
  have hnone : ∀ r ∈ (Fleet.after cleanMoves).server.db.table.rows,
      ¬ (r.status = .running ∧ r.claimedBy = some ⟨7⟩) := by decide +kernel
  refine ⟨hreturned, ?_⟩
  obtain ⟨wk, hwk, hid, hret⟩ := hreturned
  rw [← hid] at hnone ⊢
  exact (leases_released_iff h hwk hret (by decide)).mp hnone

end IronDefer
