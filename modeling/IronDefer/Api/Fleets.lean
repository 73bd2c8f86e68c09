import IronDefer.Api.Start

/-!
# What holds of every fleet

The database of a fleet makes a run in which calls on behalf of an execution act for it, and every
engine keeps track of its own calls: the claim it waits for, the tasks it has been handed, and the
transactions that report their outcomes.

## Main definitions

* `Op.Reports`: the operations that report the outcome of a task, or release it
* `Worker.Sound`: an engine keeps track of its calls
* `Fleet.Sound`: all engines of a fleet do, and its database makes a run

## Main results

* `Fleets.sound`: **every run of a fleet is sound**
-/

namespace IronDefer

open RowStore

/-- The operations that report the outcome of a task, or release it. -/
def Op.Reports (id : TaskId) : Op → Prop
  | complete taskId | fail taskId _ _ _ | suspend taskId | releaseLeaseForTask taskId => taskId = id
  | _ => False

theorem Op.Reports.actsFor {x : Execution} {op : Op} (h : op.Reports x.task) : op.ActsFor x := by
  cases op with
  | complete | fail | suspend | releaseLeaseForTask => exact h
  | _ => exact h.elim

theorem reports_outcome (config : WorkerConfig) (task : TaskRecord) (result : HandlerResult) :
    (outcome config task result).Reports task.id := by
  cases result <;> rfl

theorem reports_missingHandler (config : WorkerConfig) (task : TaskRecord) :
    (missingHandler config task).Reports task.id := rfl

theorem reports_release (id : TaskId) : (Op.releaseLeaseForTask id).Reports id := rfl

/-- The call of the number `sid`. -/
def TaskServer.Called (sv : TaskServer) (sid : ℕ) (call : Call) : Prop :=
  ∃ x ∈ sv.begun, x.sid = sid ∧ x.op = call

section Server

variable {sv sv' : TaskServer} {sid : ℕ} {call : Call} {b : Began}

theorem TaskServer.Called.mono (h : sv.Called sid call) (hext : sv.Extends sv') :
    sv'.Called sid call := by
  obtain ⟨x, hx, hsid, hop⟩ := h
  exact ⟨x, hext.begun x hx, hsid, hop⟩

/-- A call gets the next number. -/
theorem TaskServer.called_of_call (h : sv.call call b = some sv') : sv'.Called sv.next call := by
  obtain ⟨o, -, -, -, hbegun⟩ := Server.call_eq_some h
  exact ⟨_, hbegun ▸ List.mem_cons_self, rfl, rfl⟩

theorem TaskServer.extends_of_hear {lost : Bool} {r : Reply}
    (h : sv.hear sid lost = some (r, sv')) :
    sv' = sv ∨ sv' = sv.leave [sid] := by
  unfold TaskServer.hear at h
  split at h
  · cases h
    exact .inr rfl
  · obtain ⟨a, -, heq⟩ := Option.map_eq_some_iff.mp h
    cases heq
    exact .inl rfl

/-- What has ended is an answer to its call. -/
theorem TaskServer.Called.op_eq (h : sv.Called sid call) (hfresh : sv.Fresh) {o : Outcome}
    (ho : o ∈ sv.shown) (hsid : o.sid? = some sid) : o.op = some call := by
  obtain ⟨x, hx, rfl, rfl⟩ := h
  exact hfresh.op_eq hx ho hsid

theorem executions_mono (hext : sv.Extends sv') {x : Execution} (hx : x ∈ executions sv.shown) :
    x ∈ executions sv'.shown := by
  obtain ⟨o, ho, hexec⟩ := List.mem_filterMap.mp hx
  exact List.mem_filterMap.mpr ⟨o, hext.mem_shown ho, hexec⟩

/-- A claim that is answered with a task has handed out its execution. -/
theorem handed_out (hfresh : sv.Fresh) (hrun : Runs OnBehalf .empty sv.shown sv.db) {wk : Worker}
    {task : TaskRecord} (hcall : sv.Called sid wk.claimCall)
    (ha : sv.answer? sid = some (some (.ok (.claimed (some task))))) :
    ∃ o ∈ sv.shown, o.sid? = some sid ∧ o.reply = some (.ok (.claimed (some task))) ∧
      Outcome.execution? o = some (wk.execution task) := by
  obtain ⟨o, ho, hsid, hreply⟩ := Server.answer?_eq_some ha
  have hop := hcall.op_eq hfresh ho hsid
  refine ⟨o, ho, hsid, hreply, ?_⟩
  obtain ⟨sid', call', b, cs, ls, rfl, -⟩ := hrun.committed_of_response ho (by simp) hreply
  obtain rfl : call' = wk.claimCall := Option.some.inj hop
  rfl

end Server

/-! ## Engines -/

/-- The poll loop of the engine is over, and its dispatches are joined. -/
def Stage.Joined : Stage → Prop
  | .releasingAll _ | .joining _ | .returned _ | .crashed => True
  | _ => False

/-- The engine waits for no answer of its own. -/
def Stage.Quiet : Stage → Prop
  | .claiming _ | .releasing _ _ | .releasingAll _ => False
  | _ => True

namespace Worker

/-- An engine keeps track of its calls. -/
structure Sound (wk : Worker) (sv : TaskServer) : Prop where
  claiming : ∀ sid, wk.stage = .claiming sid → sv.Called sid wk.claimCall
  releasing : ∀ sid task, wk.stage = .releasing sid task →
    wk.execution task ∈ executions sv.shown ∧ sv.Called sid (wk.releaseCall task)
  dispatches : ∀ d ∈ wk.joinSet.rows, wk.execution d.task ∈ executions sv.shown
  writing : ∀ d ∈ wk.joinSet.rows, ∀ sid, d.stage = .writing sid →
    ∃ op, op.Reports d.task.id ∧ sv.Called sid (wk.callFor d.task op)
  releasingAll : ∀ sid, wk.stage = .releasingAll sid → sv.Called sid wk.releaseAllCall
  joined : wk.stage.Joined → wk.joinSet.rows = []

variable {wk wk' : Worker} {sv sv' : TaskServer} {e : Event} {o : FleetOutput}

theorem Sound.mono (h : wk.Sound sv) (hext : sv.Extends sv') : wk.Sound sv' where
  claiming sid hs := (h.claiming sid hs).mono hext
  releasing sid task hs :=
    ⟨executions_mono hext (h.releasing sid task hs).1, (h.releasing sid task hs).2.mono hext⟩
  dispatches d hd := executions_mono hext (h.dispatches d hd)
  writing d hd sid hs := by
    obtain ⟨op, hop, hcall⟩ := h.writing d hd sid hs
    exact ⟨op, hop, hcall.mono hext⟩
  releasingAll sid hs := (h.releasingAll sid hs).mono hext
  joined := h.joined

/-- Without dispatches, and between calls, there is nothing to keep track of. -/
theorem sound_of_nil (hnil : wk.joinSet.rows = []) (hquiet : wk.stage.Quiet) : wk.Sound sv := by
  refine ⟨?_, ?_, ?_, ?_, ?_, fun _ => hnil⟩
  · intro sid hs
    rw [hs] at hquiet
    exact hquiet.elim
  · intro sid task hs
    rw [hs] at hquiet
    exact hquiet.elim
  · intro d hd
    rw [hnil] at hd
    cases hd
  · intro d hd
    rw [hnil] at hd
    cases hd
  · intro sid hs
    rw [hs] at hquiet
    exact hquiet.elim

/-- What the steps of an engine leave as it is. -/
theorem Step.same (h : wk.Step sv e wk' sv' o) :
    wk'.id = wk.id ∧ wk'.auditLog = wk.auditLog ∧ wk'.queue = wk.queue ∧ wk'.config = wk.config := by
  cases h <;> exact ⟨rfl, rfl, rfl, rfl⟩

/-- What an engine does to the database: it stops waiting, or it calls. -/
theorem Step.server (h : wk.Step sv e wk' sv' o) (hsound : wk.Sound sv)
    (hclaim : ∀ sid task, wk.stage = .claiming sid →
      sv.answer? sid = some (some (.ok (.claimed (some task)))) →
      wk.execution task ∈ executions sv.shown) :
    (∃ sids, sv' = sv.leave sids) ∨
      ∃ c b, c.Acts sv.shown ∧ sv.call c b = some sv' := by
  have hstay : ∃ sids, sv = sv.leave sids := ⟨[], rfl⟩
  have hhear : ∀ {sid lost r sv'}, sv.hear sid lost = some (r, sv') → ∃ sids, sv' = sv.leave sids := by
    intro sid lost r sv' hh
    rcases TaskServer.extends_of_hear hh with rfl | rfl
    · exact hstay
    · exact ⟨_, rfl⟩
  -- a claim and the release of all leases are on behalf of no execution
  have hnone : ∀ {c : Call}, c.onBehalf = none → c.Acts sv.shown := by
    intro c hc x hx
    rw [hc] at hx
    cases hx
  -- the other calls report on an execution the engine has been handed
  have hfor : ∀ {task op}, wk.execution task ∈ executions sv.shown → op.Reports task.id →
      (wk.callFor task op).Acts sv.shown := by
    rintro task op hexec hop x ⟨⟩
    exact ⟨hexec, hop.actsFor⟩
  cases h with
  | tick _ _ hc => exact .inr ⟨_, _, hnone rfl, hc⟩
  | releaseAll _ _ hc => exact .inr ⟨_, _, hnone rfl, hc⟩
  | claimedLate hs _ ha hc => exact .inr ⟨_, _, hfor (hclaim _ _ hs ha) (reports_release _), hc⟩
  | missing hd _ _ hc =>
    exact .inr ⟨_, _, hfor (hsound.dispatches _ (Table.get_eq_some hd).1) (reports_missingHandler ..), hc⟩
  | report hd _ hc =>
    exact .inr ⟨_, _, hfor (hsound.dispatches _ (Table.get_eq_some hd).1) (reports_outcome ..), hc⟩
  | claimFailed _ hh => exact .inl (hhear hh)
  | released _ hh => exact .inl (hhear hh)
  | reported _ _ hh => exact .inl (hhear hh)
  | releasedAll _ hh => exact .inl (hhear hh)
  | dropClaim => exact .inl ⟨_, rfl⟩
  | abort => exact .inl ⟨_, rfl⟩
  | crash => exact .inl ⟨_, rfl⟩
  | _ => exact .inl hstay

/-- What an engine does extends what the database has shown and been called for. -/
theorem Step.extends (h : wk.Step sv e wk' sv' o) : sv.Extends sv' := by
  have hstay : sv.Extends sv := .leave []
  have hhear : ∀ {sid lost r sv'}, sv.hear sid lost = some (r, sv') → sv.Extends sv' := by
    intro sid lost r sv' hh
    rcases TaskServer.extends_of_hear hh with rfl | rfl
    · exact hstay
    · exact .leave _
  cases h with
  | tick _ _ hc => exact .call hc
  | releaseAll _ _ hc => exact .call hc
  | claimedLate _ _ _ hc => exact .call hc
  | missing _ _ _ hc => exact .call hc
  | report _ _ hc => exact .call hc
  | claimFailed _ hh => exact hhear hh
  | released _ hh => exact hhear hh
  | reported _ _ hh => exact hhear hh
  | releasedAll _ hh => exact hhear hh
  | dropClaim => exact .leave _
  | abort => exact .leave _
  | crash => exact .leave _
  | _ => exact hstay

/-- An engine whose poll loop goes on to another stage keeps its dispatches. -/
theorem Sound.goto (h : wk.Sound sv) {stage : Stage}
    (hclaiming : ∀ sid, stage = .claiming sid → sv.Called sid wk.claimCall)
    (hreleasing : ∀ sid task, stage = .releasing sid task →
      wk.execution task ∈ executions sv.shown ∧ sv.Called sid (wk.releaseCall task))
    (hreleasingAll : ∀ sid, stage = .releasingAll sid → sv.Called sid wk.releaseAllCall)
    (hjoined : stage.Joined → wk.joinSet.rows = []) : Sound { wk with stage } sv :=
  ⟨hclaiming, hreleasing, h.dispatches, h.writing, hreleasingAll, hjoined⟩

theorem Sound.rest (h : wk.Sound sv) {stage : Stage} (hquiet : stage.Quiet)
    (hjoined : stage.Joined → wk.joinSet.rows = []) : Sound { wk with stage } sv := by
  refine h.goto ?_ ?_ ?_ hjoined
  · rintro sid rfl
    exact hquiet.elim
  · rintro sid task rfl
    exact hquiet.elim
  · rintro sid rfl
    exact hquiet.elim

/-- An engine whose dispatches change keeps track of its calls, where it does of theirs. -/
theorem Sound.join (h : wk.Sound sv) {joinSet : Table Dispatch.claim}
    (hdispatches : ∀ d ∈ joinSet.rows, wk.execution d.task ∈ executions sv.shown)
    (hwriting : ∀ d ∈ joinSet.rows, ∀ sid, d.stage = .writing sid →
      ∃ op, op.Reports d.task.id ∧ sv.Called sid (wk.callFor d.task op))
    (hjoined : wk.stage.Joined → joinSet.rows = []) : Sound { wk with joinSet } sv :=
  ⟨h.claiming, h.releasing, hdispatches, hwriting, h.releasingAll, hjoined⟩

theorem Sound.advance (h : wk.Sound sv) {d : Dispatch} (hd : d ∈ wk.joinSet.rows)
    {stage : DispatchStage} (hwriting : ∀ sid, stage = .writing sid →
      ∃ op, op.Reports d.task.id ∧ sv.Called sid (wk.callFor d.task op)) :
    (wk.advance d stage).Sound sv := by
  refine h.join ?_ ?_ ?_
  · intro d' hd'
    rcases Table.mem_put.mp hd' with rfl | ⟨hd', -⟩
    · exact h.dispatches d hd
    · exact h.dispatches d' hd'
  · intro d' hd' sid hs
    rcases Table.mem_put.mp hd' with rfl | ⟨hd', -⟩
    · exact hwriting sid hs
    · exact h.writing d' hd' sid hs
  · intro hj
    rw [h.joined hj] at hd
    cases hd

theorem Sound.reap (h : wk.Sound sv) : wk.reap.Sound sv := by
  refine h.join (fun d hd => h.dispatches d (Table.mem_filter.mp hd).1)
    (fun d hd => h.writing d (Table.mem_filter.mp hd).1) ?_
  intro hj
  rw [Table.rows_filter, h.joined hj]
  rfl

/-- **An engine keeps track of its calls.** -/
theorem Sound.step (h : wk.Sound sv) (hs : wk.Step sv e wk' sv' o)
    (hclaim : ∀ sid task, wk.stage = .claiming sid →
      sv.answer? sid = some (some (.ok (.claimed (some task)))) →
      wk.execution task ∈ executions sv.shown) : wk'.Sound sv' := by
  have hext := h.mono hs.extends
  -- a dispatch that goes on stays one of an execution, and its write is of its own task
  have hadvance : ∀ {d claim stage}, wk.joinSet.get claim = some d →
      (∀ sid, stage = .writing sid →
        ∃ op, op.Reports d.task.id ∧ sv'.Called sid (wk.callFor d.task op)) →
      (wk.advance d stage).Sound sv' :=
    fun hd => hext.advance (Table.get_eq_some hd).1
  cases hs with
  | cancel => exact ⟨h.1, h.2, h.3, h.4, h.5, h.6⟩
  | resume | stop | timedOut | dropClaim | claimFailed | unclaimed | released =>
    exact hext.rest trivial (fun hj => hj.elim)
  | ret hs => exact hext.rest trivial (fun _ => h.joined (hs ▸ trivial))
  | releasedAll hs => exact hext.rest trivial (fun _ => h.joined (hs ▸ trivial))
  | full => exact hext.reap
  | tick _ _ hc =>
    refine hext.reap.goto ?_ (fun _ _ hs => nomatch hs) (fun _ hs => nomatch hs) (fun hj => hj.elim)
    rintro sid ⟨⟩
    exact TaskServer.called_of_call hc
  | claimedLate hs _ ha hc =>
    refine hext.goto (fun _ hs => nomatch hs) ?_ (fun _ hs => nomatch hs) (fun hj => hj.elim)
    rintro sid task ⟨⟩
    exact ⟨executions_mono (.call hc) (hclaim _ _ hs ha), TaskServer.called_of_call hc⟩
  | @spawn _ _ sid task hs _ ha =>
    have hexec := hclaim sid task hs ha
    -- the new dispatch is one of the execution that the claim has made
    have hjoin : Sound { wk with joinSet := wk.joinSet.put ⟨sid, task, .spawned⟩ } sv := by
      refine h.join ?_ ?_ (fun hj => by rw [hs] at hj; exact hj.elim)
      · intro d hd
        rcases Table.mem_put.mp hd with rfl | ⟨hd, -⟩
        · exact hexec
        · exact h.dispatches d hd
      · intro d hd
        rcases Table.mem_put.mp hd with rfl | ⟨hd, -⟩
        · exact fun _ hs => nomatch hs
        · exact h.writing d hd
    exact hjoin.rest trivial (fun hj => hj.elim)
  | execute hd =>
    have hnext : (wk.advance _ .executing).Sound sv := hadvance hd (fun _ hs => nomatch hs)
    exact ⟨hnext.1, hnext.2, hnext.3, hnext.4, hnext.5, hnext.6⟩
  | missing hd _ _ hc =>
    apply hadvance hd
    rintro sid ⟨⟩
    exact ⟨_, reports_missingHandler .., TaskServer.called_of_call hc⟩
  | @handled _ result _ d _ hd =>
    have hnext : (wk.advance d (.returned result)).Sound sv := hadvance hd (fun _ hs => nomatch hs)
    exact ⟨hnext.1, hnext.2, hnext.3, hnext.4, hnext.5, hnext.6⟩
  | handledAlone => exact ⟨h.1, h.2, h.3, h.4, h.5, h.6⟩
  | report hd _ hc =>
    apply hadvance hd
    rintro sid ⟨⟩
    exact ⟨_, reports_outcome .., TaskServer.called_of_call hc⟩
  | reported hd => exact hadvance hd (fun _ hs => nomatch hs)
  | drained => exact sound_of_nil rfl trivial
  | abort hs =>
    refine hext.join (fun d hd => hext.dispatches d (Table.mem_erase.mp hd).1)
      (fun d hd => hext.writing d (Table.mem_erase.mp hd).1) (fun hj => ?_)
    rw [hs] at hj
    exact hj.elim
  | releaseAll _ hnil hc =>
    refine hext.goto (fun _ hs => nomatch hs) (fun _ _ hs => nomatch hs) ?_ (fun _ => hnil)
    rintro sid ⟨⟩
    exact TaskServer.called_of_call hc
  | crash => exact sound_of_nil rfl trivial

end Worker

/-! ## Fleets -/

/-- The runs of the database of a fleet. -/
abbrev TaskServer.Served (sv : TaskServer) : Prop := Runs OnBehalf .empty sv.shown sv.db

section Served

variable {sv sv' : TaskServer}

theorem TaskServer.Served.call (h : sv.Served) {c : Call} {b : Began} (hacts : c.Acts sv.shown)
    (hc : sv.call c b = some sv') : sv'.Served := by
  obtain ⟨o, hs, hshown, -, -⟩ := Server.call_eq_some hc
  rw [TaskServer.Served, hshown]
  refine h.next ?_ (Db.step_iff.mpr hs)
  exact hacts

theorem TaskServer.Served.proceed (h : sv.Served) {ev : Move} (hp : sv.proceed ev = some sv') :
    sv'.Served := by
  obtain ⟨hpermits, o, hs, hshown, -, -⟩ := Server.proceed_eq_some hp
  rw [TaskServer.Served, hshown]
  refine h.next ?_ (Db.step_iff.mpr hs)
  cases ev with
  | start => exact hpermits.elim
  | _ => trivial

end Served

/-- The database of a fleet makes a run, and its engines keep track of their calls. -/
structure Fleet.Sound (f : Fleet) : Prop where
  fresh : f.server.Fresh
  served : f.server.Served
  workers : ∀ wk ∈ f.workers.rows, wk.Sound f.server

theorem Call.OfClient.acts {c : Call} (h : c.OfClient) (os : List Outcome) : c.Acts os := by
  intro x hx
  rw [h.onBehalf] at hx
  cases hx

namespace Fleet

variable {f f' : Fleet} {e : Event} {o : FleetOutput}

theorem sound_idle : idle.Sound where
  fresh := Server.fresh_idle rfl
  served := .init
  workers _ hwk := nomatch hwk

/-- What an engine is handed is an execution its claim has committed. -/
theorem Sound.claimed (h : f.Sound) {wk : Worker} (hwk : wk ∈ f.workers.rows) {sid : ℕ}
    {task : TaskRecord} (hs : wk.stage = .claiming sid)
    (ha : f.server.answer? sid = some (some (.ok (.claimed (some task))))) :
    ∃ o ∈ f.server.shown, o.sid? = some sid ∧ o.reply = some (.ok (.claimed (some task))) ∧
      Outcome.execution? o = some (wk.execution task) :=
  handed_out h.fresh h.served ((h.workers wk hwk).claiming sid hs) ha

theorem Sound.handed (h : f.Sound) {wk : Worker} (hwk : wk ∈ f.workers.rows) :
    ∀ sid task, wk.stage = .claiming sid →
      f.server.answer? sid = some (some (.ok (.claimed (some task)))) →
      wk.execution task ∈ executions f.server.shown := by
  intro sid task hs ha
  obtain ⟨o, ho, -, -, hexec⟩ := h.claimed hwk hs ha
  exact List.mem_filterMap.mpr ⟨o, ho, hexec⟩

theorem Step.extends (h : f.Step e f' o) : f.server.Extends f'.server := by
  cases h with
  | call _ hc => exact .call hc
  | database hp => exact .proceed hp
  | start => exact .leave []
  | worker _ hs => exact hs.extends

theorem Sound.step (h : f.Sound) (hs : f.Step e f' o) : f'.Sound := by
  have hext := hs.extends
  have hkeep : ∀ wk ∈ f.workers.rows, wk.Sound f'.server := fun wk hwk => (h.workers wk hwk).mono hext
  cases hs with
  | call hc hcall => exact ⟨h.fresh.call hcall, h.served.call (hc.acts _) hcall, hkeep⟩
  | database hp => exact ⟨h.fresh.proceed hp, h.served.proceed hp, hkeep⟩
  | start hn =>
    refine ⟨h.fresh, h.served, fun wk hwk => ?_⟩
    rcases Table.mem_put.mp hwk with rfl | ⟨hwk, -⟩
    · exact Worker.sound_of_nil rfl trivial
    · exact h.workers wk hwk
  | @worker w e wk wk' sv o hw hs =>
    obtain ⟨hwk, rfl⟩ := Table.get_eq_some hw
    have hsound := h.workers wk hwk
    have hclaim := h.handed hwk
    have hworkers : ∀ v ∈ (f.workers.put wk').rows, v.Sound sv := by
      intro v hv
      rcases Table.mem_put.mp hv with rfl | ⟨hv, -⟩
      · exact hsound.step hs hclaim
      · exact hkeep v hv
    rcases hs.server hsound hclaim with ⟨sids, rfl⟩ | ⟨c, b, hacts, hc⟩
    · exact ⟨h.fresh.leave sids, h.served, hworkers⟩
    · exact ⟨h.fresh.call hc, h.served.call hacts hc, hworkers⟩

end Fleet

/-- **Every run of a fleet is sound.** -/
theorem Fleets.sound {os : List FleetOutput} {f : Fleet} (h : Fleets os f) : f.Sound := by
  induction h with
  | init => exact Fleet.sound_idle
  | next _ _ hs ih => exact ih.step (Fleet.step_of_step hs)

end IronDefer
