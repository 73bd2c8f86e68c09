import IronDefer.Api.Budget
import IronDefer.Infrastructure.StateMachine

/-!
# What statuses tell of handlers

A handler runs in a task of its own, its dispatch hears how it has ended, and writes an outcome for
the task, on a connection that may fail, next to other engines, a sweeper, clients and a shutdown.
What has been written is nevertheless what the handler of this execution has returned: a task is
completed or suspended only where a handler of it has said so. And what a handler has returned is
written, or its engine has given its dispatches up.

## Main definitions

* `HandlerEnd`, `Watched`: a handler that has ended, and the runs of a fleet that show them
* `HandlerEnd.Wrote`: the outcome of a handler has been sent to the database
* `Call.Justified`: what the calls of a fleet are
* `Worker.Tracks`: how the dispatches of an engine stand to its handlers
* `Fleet.Earned`: outcomes and statuses are those the handlers have returned

## Main results

* `results_reported`: **outcomes are what handlers have returned, and what they return is sent**
-/

namespace IronDefer

open RowStore

/-! ## Handlers that end -/

/-- A handler of an engine has ended, for a task, with a result. -/
structure HandlerEnd where
  worker : WorkerId
  task : TaskRecord
  result : HandlerResult

/-- The execution it has been a handler of. -/
def HandlerEnd.execution (e : HandlerEnd) : Execution :=
  ⟨e.task.id, e.task.attempts.get.val, e.worker⟩

/-- The handler that an event of an engine ends. -/
def Worker.ended (wk : Worker) : Worker.Event → Option HandlerEnd
  | .handled claim result => (wk.handlers.get claim).map fun h => ⟨wk.id, h.task, result⟩
  | _ => none

def Fleet.ended (f : Fleet) : Fleet.Event → Option HandlerEnd
  | .worker w e => (f.workers.get w).bind fun wk => wk.ended e
  | _ => none

/-- A step of a fleet that shows the handler it ends. -/
def Fleet.watch (f : Fleet) (e : Fleet.Event) : Option (Fleet × Option HandlerEnd) :=
  (f.step e).map fun r => (r.1, f.ended e)

/-- The runs of a fleet, with the handlers that have ended. -/
abbrev Watched : List (Option HandlerEnd) → Fleet → Prop :=
  Reaches Fleet.watch (fun _ _ _ => True) .idle

/-- The handlers that have ended. -/
def ends (os : List (Option HandlerEnd)) : List HandlerEnd := os.filterMap id

/-- The outcome of the handler has been sent to the database. -/
def HandlerEnd.Wrote (e : HandlerEnd) (sv : TaskServer) : Prop :=
  ∃ sid a config, sv.Called sid ⟨a, outcome config e.task e.result, some e.execution⟩

/-- The engine has given its dispatches up: it has aborted them, or its process has died. -/
def Stage.GivenUp : Stage → Prop
  | .aborting | .releasingAll _ | .joining (some _) | .returned (some _) | .crashed => True
  | _ => False

/-! ## Calls -/

/-- The operations an engine sends for itself. -/
def Op.Leases : Op → Prop
  | .claimNext .. | .releaseLeaseForTask _ | .releaseLeasesForWorker _ => True
  | _ => False

/-- **What the calls of a fleet are**: those of its clients, claims and releases, the outcomes of
handlers that have ended, and failures for tasks an engine has no handler for. -/
inductive Call.Justified (f : Fleet) (es : List HandlerEnd) : Call → Prop
  | client {c} : c.OfClient → Justified f es c
  | lease {c} : c.op.Leases → Justified f es c
  | outcome {a config e} : e ∈ es →
      Justified f es ⟨a, IronDefer.outcome config e.task e.result, some e.execution⟩
  | missing {a config task wk} : wk ∈ f.workers.rows → task.kind.asStr ∉ wk.kinds →
      Justified f es ⟨a, missingHandler config task, some (wk.execution task)⟩

/-- Outcomes that have been committed, and the statuses they have led to, are what the handlers of
the tasks have returned. -/
structure Fleet.Earned (f : Fleet) (es : List HandlerEnd) : Prop where
  completed : ∀ sid call b cs ls reply id,
    Output.committed sid call b cs ls reply ∈ f.server.shown → call.op = .complete id →
      ∃ e ∈ es, e.result = .ok ∧ e.task.id = id ∧ call.onBehalf = some e.execution
  suspended : ∀ sid call b cs ls reply id,
    Output.committed sid call b cs ls reply ∈ f.server.shown → call.op = .suspend id →
      ∃ e ∈ es, e.result = .suspendRequested ∧ e.task.id = id ∧ call.onBehalf = some e.execution
  failed : ∀ sid call b cs ls reply id text base max,
    Output.committed sid call b cs ls reply ∈ f.server.shown → call.op = .fail id text base max →
      (∃ e ∈ es, e.task.id = id ∧ call.onBehalf = some e.execution ∧
        (e.result = .err text ∨ ∃ message, e.result = .panicked message ∧
          text = (ExecutionErrorKind.handlerPanicked message).display)) ∨
      ∃ wk ∈ f.workers.rows, ∃ task, task.id = id ∧ call.onBehalf = some (wk.execution task) ∧
        task.kind.asStr ∉ wk.kinds ∧
          text = (ExecutionErrorKind.missingHandler task.kind.asStr).display
  statusCompleted : ∀ r ∈ f.server.db.table.rows, r.status = .completed →
    ∃ e ∈ es, e.result = .ok ∧ e.task.id = r.id
  statusSuspended : ∀ r ∈ f.server.db.table.rows, r.status = .suspended →
    ∃ e ∈ es, e.result = .suspendRequested ∧ e.task.id = r.id

/-- What a handler has returned has been sent, or its dispatch still holds it, or its engine has
given its dispatches up. The handler is one of an execution a claim has handed out. -/
structure Fleet.Settles (f : Fleet) (es : List HandlerEnd) : Prop where
  executed : ∀ e ∈ es, e.execution ∈ executions f.server.shown
  sent : ∀ e ∈ es, ∃ wk ∈ f.workers.rows, wk.id = e.worker ∧
    (e.Wrote f.server ∨ (∃ d ∈ wk.joinSet.rows, d.task = e.task ∧ d.stage = .returned e.result) ∨
      wk.stage.GivenUp)

/-! ## Engines and their handlers -/

namespace Worker

/-- How the dispatches of an engine stand to its handlers, those that have ended being `es`. -/
structure Tracks (wk : Worker) (sv : TaskServer) (es : List HandlerEnd) : Prop where
  fresh : ∀ d ∈ wk.joinSet.rows, (∃ x ∈ sv.begun, x.sid = d.claim) ∧
    ∀ sid, wk.stage = .claiming sid → d.claim ≠ sid
  executed : ∀ h ∈ wk.handlers.rows, wk.execution h.task ∈ executions sv.shown
  same : ∀ h ∈ wk.handlers.rows, ∀ d ∈ wk.joinSet.rows, d.claim = h.claim → d.stage = .executing →
    d.task = h.task
  awaited : ¬ wk.stage.GivenUp → ∀ h ∈ wk.handlers.rows,
    ∃ d ∈ wk.joinSet.rows, d.claim = h.claim ∧ d.stage = .executing
  returned : ∀ d ∈ wk.joinSet.rows, ∀ result, d.stage = .returned result →
    ⟨wk.id, d.task, result⟩ ∈ es
  sent : ∀ e ∈ es, e.worker = wk.id → e.Wrote sv ∨
    (∃ d ∈ wk.joinSet.rows, d.task = e.task ∧ d.stage = .returned e.result) ∨ wk.stage.GivenUp

variable {wk wk' : Worker} {sv sv' : TaskServer} {e : Event} {o : FleetOutput}
  {es : List HandlerEnd}

theorem Tracks.mono (h : wk.Tracks sv es) (hext : sv.Extends sv') : wk.Tracks sv' es where
  fresh d hd := by
    obtain ⟨⟨x, hx, hsid⟩, hne⟩ := h.fresh d hd
    exact ⟨⟨x, hext.begun x hx, hsid⟩, hne⟩
  executed v hv := executions_mono hext (h.executed v hv)
  same := h.same
  awaited := h.awaited
  returned := h.returned
  sent x hx hid := by
    obtain ⟨sid, a, config, hcall⟩ | hrest := h.sent x hx hid
    · exact .inl ⟨sid, a, config, hcall.mono hext⟩
    · exact .inr hrest

/-- A handler of another engine ends. -/
theorem Tracks.other (h : wk.Tracks sv es) {x : HandlerEnd} (hne : x.worker ≠ wk.id) :
    wk.Tracks sv (es ++ [x]) where
  fresh := h.fresh
  executed := h.executed
  same := h.same
  awaited := h.awaited
  returned d hd result hs := List.mem_append_left _ (h.returned d hd result hs)
  sent y hy hid := by
    rcases List.mem_append.mp hy with hy | hy
    · exact h.sent y hy hid
    · rw [List.mem_singleton.mp hy] at hid
      exact absurd hid hne

/-- The engine goes on to another stage. It does not come back from giving its dispatches up, and it
claims under a new number. -/
theorem Tracks.goto (h : wk.Tracks sv es) {stage : Stage}
    (hclaim : ∀ sid, stage = .claiming sid → ∀ d ∈ wk.joinSet.rows, d.claim ≠ sid)
    (hup : wk.stage.GivenUp → stage.GivenUp) : Tracks { wk with stage } sv es where
  fresh d hd := ⟨(h.fresh d hd).1, fun sid hs => hclaim sid hs d hd⟩
  executed := h.executed
  same := h.same
  awaited hnot := h.awaited fun hg => hnot (hup hg)
  returned := h.returned
  sent x hx hid := (h.sent x hx hid).imp_right (Or.imp_right hup)

/-- A dispatch that waits for no handler goes on to write its outcome, or is done. -/
theorem Tracks.advance (h : wk.Tracks sv es) {d : Dispatch} (hd : d ∈ wk.joinSet.rows)
    (hidle : d.stage ≠ .executing) {stage : DispatchStage}
    (hstage : stage = .finished ∨ ∃ sid, stage = .writing sid)
    (hwrote : ∀ e : HandlerEnd, e.worker = wk.id → d.task = e.task → d.stage = .returned e.result →
      e.Wrote sv) : (wk.advance d stage).Tracks sv es := by
  have hnot : stage ≠ .executing ∧ ∀ result, stage ≠ .returned result := by
    rcases hstage with rfl | ⟨sid, rfl⟩
    · exact ⟨nofun, fun _ => nofun⟩
    · exact ⟨nofun, fun _ => nofun⟩
  -- the other dispatches stay, and this one has neither been executing nor is it now
  have hkeep : ∀ {d'}, d' ∈ wk.joinSet.rows → d' ≠ d → d' ∈ (wk.advance d stage).joinSet.rows := by
    intro d' hd' hne
    refine Table.mem_put.mpr (.inr ⟨hd', fun hkey => hne ?_⟩)
    exact Table.eq_of_key_eq hd' hd hkey.symm
  refine ⟨?_, h.executed, ?_, ?_, ?_, ?_⟩
  · intro d' hd'
    rcases Table.mem_put.mp hd' with rfl | ⟨hd', -⟩
    · exact h.fresh d hd
    · exact h.fresh d' hd'
  · intro v hv d' hd' hclaim hexec
    rcases Table.mem_put.mp hd' with rfl | ⟨hd', -⟩
    · exact absurd hexec hnot.1
    · exact h.same v hv d' hd' hclaim hexec
  · intro hup v hv
    obtain ⟨d', hd', hclaim, hexec⟩ := h.awaited hup v hv
    exact ⟨d', hkeep hd' (fun heq => hidle (heq ▸ hexec)), hclaim, hexec⟩
  · intro d' hd' result hs
    rcases Table.mem_put.mp hd' with rfl | ⟨hd', -⟩
    · exact absurd hs (hnot.2 result)
    · exact h.returned d' hd' result hs
  · intro x hx hid
    rcases h.sent x hx hid with hw | ⟨d', hd', htask, hs⟩ | hup
    · exact .inl hw
    · by_cases heq : d' = d
      · rw [heq] at htask hs
        exact .inl (hwrote x hid htask hs)
      · exact .inr (.inl ⟨d', hkeep hd' heq, htask, hs⟩)
    · exact .inr (.inr hup)

/-- Dispatches that wait for nothing leave the join set; others may too once all are given up. -/
theorem Tracks.drop (h : wk.Tracks sv es) {joinSet : Table Dispatch.claim}
    (hsub : ∀ d ∈ joinSet.rows, d ∈ wk.joinSet.rows)
    (hkeep : ¬ wk.stage.GivenUp → ∀ d ∈ wk.joinSet.rows,
      (d.stage = .executing ∨ ∃ result, d.stage = .returned result) → d ∈ joinSet.rows) :
    Tracks { wk with joinSet } sv es where
  fresh d hd := h.fresh d (hsub d hd)
  executed := h.executed
  same v hv d hd := h.same v hv d (hsub d hd)
  awaited hup v hv := by
    obtain ⟨d, hd, hclaim, hexec⟩ := h.awaited hup v hv
    exact ⟨d, hkeep hup d hd (.inl hexec), hclaim, hexec⟩
  returned d hd := h.returned d (hsub d hd)
  sent x hx hid := by
    rcases h.sent x hx hid with hw | ⟨d, hd, htask, hs⟩ | hup
    · exact .inl hw
    · by_cases hup : wk.stage.GivenUp
      · exact .inr (.inr hup)
      · exact .inr (.inl ⟨d, hkeep hup d hd (.inr ⟨_, hs⟩), htask, hs⟩)
    · exact .inr (.inr hup)

/-- The engine spawns a dispatch for the claim it has waited for. -/
theorem Tracks.spawn (h : wk.Tracks sv es) {sid : ℕ} (hs : wk.stage = .claiming sid)
    (hcalled : ∃ x ∈ sv.begun, x.sid = sid) (task : TaskRecord) :
    Tracks { wk with stage := .polling, joinSet := wk.joinSet.put ⟨sid, task, .spawned⟩ } sv es := by
  have hup : ¬ wk.stage.GivenUp := by
    rw [hs]
    exact not_false
  have hkeep : ∀ {d}, d ∈ wk.joinSet.rows → d ∈ (wk.joinSet.put ⟨sid, task, .spawned⟩).rows :=
    fun {d} hd => Table.mem_put.mpr (.inr ⟨hd, ((h.fresh d hd).2 sid hs).symm⟩)
  refine ⟨?_, h.executed, ?_, ?_, ?_, ?_⟩
  · intro d hd
    refine ⟨?_, nofun⟩
    rcases Table.mem_put.mp hd with rfl | ⟨hd, -⟩
    · exact hcalled
    · exact (h.fresh d hd).1
  · intro v hv d hd hclaim hexec
    rcases Table.mem_put.mp hd with rfl | ⟨hd, -⟩
    · cases hexec
    · exact h.same v hv d hd hclaim hexec
  · intro _ v hv
    obtain ⟨d, hd, hclaim, hexec⟩ := h.awaited hup v hv
    exact ⟨d, hkeep hd, hclaim, hexec⟩
  · intro d hd result hret
    rcases Table.mem_put.mp hd with rfl | ⟨hd, -⟩
    · cases hret
    · exact h.returned d hd result hret
  · intro x hx hid
    rcases h.sent x hx hid with hw | ⟨d, hd, htask, hret⟩ | hg
    · exact .inl hw
    · exact .inr (.inl ⟨d, hkeep hd, htask, hret⟩)
    · exact absurd hg hup

/-- A dispatch hands its task to a handler. -/
theorem Tracks.execute (h : wk.Tracks sv es) {d : Dispatch} (hd : d ∈ wk.joinSet.rows)
    (hspawned : d.stage = .spawned) (hexec : wk.execution d.task ∈ executions sv.shown) :
    Tracks { wk.advance d .executing with handlers := wk.handlers.put ⟨d.claim, d.task⟩ } sv es := by
  have hother : ∀ {d'}, d' ∈ wk.joinSet.rows → d'.stage ≠ .spawned →
      d' ∈ (wk.joinSet.put { d with stage := .executing }).rows := by
    intro d' hd' hs
    refine Table.mem_put.mpr (.inr ⟨hd', fun hkey => hs ?_⟩)
    rw [Table.eq_of_key_eq hd' hd hkey.symm, hspawned]
  refine ⟨?_, ?_, ?_, ?_, ?_, ?_⟩
  · intro d' hd'
    rcases Table.mem_put.mp hd' with rfl | ⟨hd', -⟩
    · exact h.fresh d hd
    · exact h.fresh d' hd'
  · intro v hv
    rcases Table.mem_put.mp hv with rfl | ⟨hv, -⟩
    · exact hexec
    · exact h.executed v hv
  · intro v hv d' hd' hclaim hs
    rcases Table.mem_put.mp hv with rfl | ⟨hv, hne⟩
    · rcases Table.mem_put.mp hd' with rfl | ⟨-, hne⟩
      · rfl
      · exact absurd hclaim.symm hne
    · rcases Table.mem_put.mp hd' with rfl | ⟨hd', -⟩
      · exact absurd hclaim hne
      · exact h.same v hv d' hd' hclaim hs
  · intro hup v hv
    rcases Table.mem_put.mp hv with rfl | ⟨hv, -⟩
    · exact ⟨_, Table.mem_put.mpr (.inl rfl), rfl, rfl⟩
    · obtain ⟨d', hd', hclaim, hs⟩ := h.awaited hup v hv
      exact ⟨d', hother hd' (by rw [hs]; nofun), hclaim, hs⟩
  · intro d' hd' result hs
    rcases Table.mem_put.mp hd' with rfl | ⟨hd', -⟩
    · cases hs
    · exact h.returned d' hd' result hs
  · intro x hx hid
    rcases h.sent x hx hid with hw | ⟨d', hd', htask, hs⟩ | hup
    · exact .inl hw
    · exact .inr (.inl ⟨d', hother hd' (by rw [hs]; nofun), htask, hs⟩)
    · exact .inr (.inr hup)

/-- A handler ends after its dispatch has been given up. -/
theorem Tracks.endAlone (h : wk.Tracks sv es) (hup : wk.stage.GivenUp) (claim : ℕ)
    (x : HandlerEnd) :
    Tracks { wk with handlers := wk.handlers.erase claim } sv (es ++ [x]) where
  fresh := h.fresh
  executed v hv := h.executed v (Table.mem_erase.mp hv).1
  same v hv := h.same v (Table.mem_erase.mp hv).1
  awaited hnot := absurd hup hnot
  returned d hd result hs := List.mem_append_left _ (h.returned d hd result hs)
  sent _ _ _ := .inr (.inr hup)

/-- A dispatch hears how its handler has ended. -/
theorem Tracks.hear (h : wk.Tracks sv es) {d : Dispatch} (hd : d ∈ wk.joinSet.rows)
    (hexec : d.stage = .executing) {x : HandlerEnd} (hid : x.worker = wk.id)
    (htask : x.task = d.task) :
    Tracks (Worker.advance { wk with handlers := wk.handlers.erase d.claim } d (.returned x.result)) sv
      (es ++ [x]) := by
  have hother : ∀ {d'}, d' ∈ wk.joinSet.rows → d'.claim ≠ d.claim →
      d' ∈ (wk.joinSet.put { d with stage := .returned x.result }).rows :=
    fun hd' hne => Table.mem_put.mpr (.inr ⟨hd', hne.symm⟩)
  refine ⟨?_, fun v hv => h.executed v (Table.mem_erase.mp hv).1, ?_, ?_, ?_, ?_⟩
  · intro d' hd'
    rcases Table.mem_put.mp hd' with rfl | ⟨hd', -⟩
    · exact h.fresh d hd
    · exact h.fresh d' hd'
  · intro v hv d' hd' hclaim hs
    rcases Table.mem_put.mp hd' with rfl | ⟨hd', -⟩
    · cases hs
    · exact h.same v (Table.mem_erase.mp hv).1 d' hd' hclaim hs
  · intro hup v hv
    obtain ⟨hv, hne⟩ := Table.mem_erase.mp hv
    obtain ⟨d', hd', hclaim, hs⟩ := h.awaited hup v hv
    exact ⟨d', hother hd' (hclaim ▸ hne), hclaim, hs⟩
  · intro d' hd' result hs
    rcases Table.mem_put.mp hd' with rfl | ⟨hd', -⟩
    · obtain rfl := DispatchStage.returned.inj hs
      refine List.mem_append_right _ (List.mem_singleton.mpr ?_)
      cases x
      cases hid
      cases htask
      rfl
    · exact List.mem_append_left _ (h.returned d' hd' result hs)
  · intro y hy hyid
    rcases List.mem_append.mp hy with hy | hy
    · rcases h.sent y hy hyid with hw | ⟨d', hd', hytask, hs⟩ | hup
      · exact .inl hw
      · refine .inr (.inl ⟨d', hother hd' (fun hclaim => ?_), hytask, hs⟩)
        rw [Table.eq_of_key_eq hd' hd hclaim, hexec] at hs
        cases hs
      · exact .inr (.inr hup)
    · rw [List.mem_singleton.mp hy]
      exact .inr (.inl ⟨_, Table.mem_put.mpr (.inl rfl), htask.symm, rfl⟩)

/-- **A handler ends**: its dispatch has its result, unless it has been given up. -/
theorem Tracks.handled (h : wk.Tracks sv es) {claim : ℕ} {result : HandlerResult}
    (hs : wk.step sv (.handled claim result) = some (wk', sv', o)) :
    sv' = sv ∧ ∃ x, wk.ended (.handled claim result) = some x ∧
      x.execution ∈ executions sv.shown ∧ wk'.Tracks sv (es ++ [x]) := by
  simp only [step] at hs
  cases hv : wk.handlers.get claim with
  | none =>
    rw [hv] at hs
    cases hs
  | some v =>
    obtain ⟨hmem, rfl⟩ := Table.get_eq_some hv
    rw [hv] at hs
    have hended : wk.ended (.handled v.claim result) = some ⟨wk.id, v.task, result⟩ := by
      rw [ended, hv]
      rfl
    have hexec := h.executed v hmem
    -- without a dispatch that waits for it, the handler has been given up
    have halone : (∀ d, wk.joinSet.get v.claim = some d → d.stage ≠ .executing) →
        wk.stage.GivenUp := by
      intro hnone
      by_contra hup
      obtain ⟨d, hd, hclaim, hs⟩ := h.awaited hup v hmem
      exact hnone d (hclaim ▸ Table.get_key_of_mem hd) hs
    cases hd : wk.joinSet.get v.claim with
    | none =>
      simp only [hd] at hs
      cases hs
      exact ⟨rfl, _, hended, hexec, h.endAlone (halone (by simp [hd])) v.claim _⟩
    | some d =>
      obtain ⟨hdmem, hclaim⟩ := Table.get_eq_some hd
      by_cases hstage : d.stage = .executing
      · simp only [hd, if_pos hstage] at hs
        cases hs
        refine ⟨rfl, _, hended, hexec, ?_⟩
        rw [← hclaim]
        exact h.hear hdmem hstage (x := ⟨wk.id, v.task, result⟩) rfl (h.same v hmem d hdmem hclaim hstage).symm
      · simp only [hd, if_neg hstage] at hs
        cases hs
        refine ⟨rfl, _, hended, hexec, h.endAlone (halone ?_) v.claim _⟩
        intro d' hd'
        rw [hd] at hd'
        exact Option.some.inj hd' ▸ hstage

/-- Every other step of an engine keeps how its dispatches stand to its handlers. -/
theorem Tracks.step (h : wk.Tracks sv es) (hsound : wk.Sound sv) (hfresh : sv.Fresh)
    (hs : wk.Step sv e wk' sv' o) (hended : wk.ended e = none) : wk'.Tracks sv' es := by
  have hext := h.mono hs.extends
  -- a stage that is no claim, reached from one in which nothing is given up
  have hgoto : ∀ {stage : Stage}, (∀ sid, stage ≠ .claiming sid) → ¬ wk.stage.GivenUp →
      Tracks { wk with stage } sv' es :=
    fun hno hup => hext.goto (fun sid hs => absurd hs (hno sid)) fun hg => absurd hg hup
  have hgivenUp : ∀ {stage : Stage}, (∀ sid, stage ≠ .claiming sid) → stage.GivenUp →
      Tracks { wk with stage } sv' es :=
    fun hno hup => hext.goto (fun sid hs => absurd hs (hno sid)) fun _ => hup
  have hreap : wk.reap.Tracks sv' es :=
    hext.drop (fun d hd => (Table.mem_filter.mp hd).1) fun _ d hd hstage => by
      refine Table.mem_filter.mpr ⟨hd, decide_eq_true ?_⟩
      rcases hstage with hs | ⟨_, hs⟩
      · rw [hs]
        nofun
      · rw [hs]
        nofun
  cases hs with
  | cancel => exact ⟨h.1, h.2, h.3, h.4, h.5, h.6⟩
  | resume hs => exact hgoto nofun (by rw [hs]; exact not_false)
  | stop _ hs => exact hgoto nofun (by rcases hs with hs | hs <;> rw [hs] <;> exact not_false)
  | full => exact hreap
  | tick hs _ hc =>
    refine hreap.goto ?_ (fun hg => by rw [show wk.reap.stage = .polling from hs] at hg; exact hg)
    rintro sid ⟨⟩ d hd
    -- a call gets a number that none has had
    obtain ⟨x, hx, hsid⟩ := (h.fresh d (Table.mem_filter.mp hd).1).1
    exact hsid ▸ Nat.ne_of_lt (hfresh.lt x hx)
  | dropClaim hs => exact hgoto nofun (by rw [hs]; exact not_false)
  | claimFailed hs => exact hgoto nofun (by rw [hs]; exact not_false)
  | unclaimed hs => exact hgoto nofun (by rw [hs]; exact not_false)
  | claimedLate hs => exact hgoto nofun (by rw [hs]; exact not_false)
  | released hs => exact hgoto nofun (by rw [hs]; exact not_false)
  | spawn hs =>
    obtain ⟨x, hx, hsid, -⟩ := hsound.claiming _ hs
    exact h.spawn hs ⟨x, hx, hsid⟩ _
  | execute hd hs =>
    obtain ⟨hmem, rfl⟩ := Table.get_eq_some hd
    exact h.execute hmem hs (hsound.dispatches _ hmem)
  | missing hd hs =>
    refine hext.advance (Table.get_eq_some hd).1 (by rw [hs]; nofun) (.inr ⟨_, rfl⟩) ?_
    intro x _ _ hret
    rw [hs] at hret
    cases hret
  | handled hv =>
    rw [ended, hv] at hended
    cases hended
  | handledAlone hv =>
    rw [ended, hv] at hended
    cases hended
  | report hd hs hc =>
    refine hext.advance (Table.get_eq_some hd).1 (by rw [hs]; nofun) (.inr ⟨_, rfl⟩) ?_
    rintro ⟨w, task, result⟩ hw htask hret
    obtain rfl : w = wk.id := hw
    obtain rfl := DispatchStage.returned.inj (hs.symm.trans hret)
    exact ⟨_, _, _, htask ▸ TaskServer.called_of_call hc⟩
  | reported hd hs =>
    refine hext.advance (Table.get_eq_some hd).1 (by rw [hs]; nofun) (.inl rfl) ?_
    intro x _ _ hret
    rw [hs] at hret
    cases hret
  | drained hs hidle =>
    -- who has a handler, or its result, would be in flight
    have hdrop : Tracks { wk with joinSet := ∅ } sv es :=
      h.drop (fun _ hd => nomatch hd) fun _ d hd hstage => by
        have hin : d ∈ wk.inFlight := by
          refine List.mem_filter.mpr ⟨hd, decide_eq_true ?_⟩
          rcases hstage with hs | ⟨_, hs⟩
          · rw [hs]
            nofun
          · rw [hs]
            nofun
        rw [hidle] at hin
        cases hin
    exact hdrop.goto (fun _ hs => nomatch hs) fun hg => by
      rw [show Worker.stage _ = wk.stage from rfl, hs] at hg
      exact hg
  | timedOut => exact hgivenUp nofun trivial
  | abort hs hd =>
    exact hext.drop (fun d hd => (Table.mem_erase.mp hd).1) fun hup => by
      rw [hs] at hup
      exact absurd trivial hup
  | releaseAll => exact hgivenUp nofun trivial
  | releasedAll => exact hgivenUp nofun trivial
  | @ret released hs =>
    refine hext.goto nofun fun hg => ?_
    rw [hs] at hg
    cases released with
    | none => exact hg
    | some _ => exact trivial
  | crash =>
    exact ⟨fun _ hd => (nomatch hd), fun _ hv => (nomatch hv), fun _ hv => (nomatch hv),
      fun hup => absurd trivial hup, fun _ hd => (nomatch hd), fun _ _ _ => .inr (.inr trivial)⟩

end Worker

/-! ## Fleets -/

theorem Worker.Step.kinds {wk wk' : Worker} {sv sv' : TaskServer} {e : Worker.Event}
    {o : FleetOutput} (h : wk.Step sv e wk' sv' o) : wk'.kinds = wk.kinds := by
  cases h <;> rfl

/-- The calls an engine makes are claims and releases, or outcomes of its dispatches. -/
theorem Worker.Step.called {wk wk' : Worker} {sv sv' : TaskServer} {e : Worker.Event}
    {o : FleetOutput} (h : wk.Step sv e wk' sv' o) {x : Begun TaskRow.id Call} (hx : x ∈ sv'.begun) :
    x ∈ sv.begun ∨ x.op.op.Leases ∨
      (∃ task, task.kind.asStr ∉ wk.kinds ∧ x.op = wk.callFor task (missingHandler wk.config task)) ∨
      ∃ d ∈ wk.joinSet.rows, ∃ result, d.stage = .returned result ∧
        x.op = wk.callFor d.task (outcome wk.config d.task result) := by
  have hhear : ∀ {sid lost r sv'}, sv.hear sid lost = some (r, sv') → sv'.begun = sv.begun := by
    intro sid lost r sv' hh
    rcases TaskServer.extends_of_hear hh with rfl | rfl
    · rfl
    · rfl
  have hcall : ∀ {c b sv'}, sv.call c b = some sv' → x ∈ sv'.begun → x ∈ sv.begun ∨ x.op = c := by
    intro c b sv' hc hx
    obtain ⟨_, -, -, -, hbegun⟩ := Server.call_eq_some hc
    rw [hbegun] at hx
    rcases List.mem_cons.mp hx with rfl | hx
    · exact .inr rfl
    · exact .inl hx
  cases h with
  | tick _ _ hc => exact (hcall hc hx).imp_right fun hop => .inl (by rw [hop]; trivial)
  | releaseAll _ _ hc => exact (hcall hc hx).imp_right fun hop => .inl (by rw [hop]; trivial)
  | claimedLate _ _ _ hc => exact (hcall hc hx).imp_right fun hop => .inl (by rw [hop]; trivial)
  | missing _ _ hk hc => exact (hcall hc hx).imp_right fun hop => .inr (.inl ⟨_, hk, hop⟩)
  | report hd hs hc =>
    exact (hcall hc hx).imp_right fun hop => .inr (.inr ⟨_, (Table.get_eq_some hd).1, _, hs, hop⟩)
  | claimFailed _ hh => exact .inl (hhear hh ▸ hx)
  | released _ hh => exact .inl (hhear hh ▸ hx)
  | reported _ _ hh => exact .inl (hhear hh ▸ hx)
  | releasedAll _ hh => exact .inl (hhear hh ▸ hx)
  | _ => exact .inl hx

variable {f f' : Fleet} {es : List HandlerEnd}

/-- What a justified call is stays so. -/
theorem Call.Justified.mono {c : Call} (h : c.Justified f es)
    {es' : List HandlerEnd} (hes : es ⊆ es')
    (hworkers : ∀ wk ∈ f.workers.rows, ∃ wk' ∈ f'.workers.rows,
      wk'.id = wk.id ∧ wk'.kinds = wk.kinds) : c.Justified f' es' := by
  cases h with
  | client hc => exact .client hc
  | lease hc => exact .lease hc
  | outcome he => exact .outcome (hes he)
  | @missing a config task wk hwk hk =>
    obtain ⟨wk', hwk', hid, hkinds⟩ := hworkers wk hwk
    have hexec : wk.execution task = wk'.execution task := by
      rw [Worker.execution, Worker.execution, hid]
    rw [hexec]
    exact .missing hwk' (hkinds ▸ hk)

/-- The engines of a fleet track their handlers, and its calls are justified. -/
structure Fleet.Tracked (f : Fleet) (es : List HandlerEnd) : Prop where
  workers : ∀ wk ∈ f.workers.rows, wk.Tracks f.server es
  known : ∀ e ∈ es, ∃ wk ∈ f.workers.rows, wk.id = e.worker
  executed : ∀ e ∈ es, e.execution ∈ executions f.server.shown
  calls : ∀ x ∈ f.server.begun, x.op.Justified f es

namespace Fleet

variable {e : Event} {o : FleetOutput}

theorem tracked_idle : idle.Tracked [] where
  workers _ hwk := nomatch hwk
  known _ he := nomatch he
  executed _ he := nomatch he
  calls _ hx := nomatch hx

/-- An engine makes a step. -/
theorem Tracked.worker (h : f.Tracked es) (hsound : f.Sound) {wk wk' : Worker} {sv : TaskServer}
    {ev : Worker.Event} (hwk : wk ∈ f.workers.rows) (hs : wk.step f.server ev = some (wk', sv, o)) :
    Tracked ⟨sv, f.workers.put wk'⟩ (es ++ (wk.ended ev).toList) := by
  have hstep := Worker.step_of_step hs
  have hid : wk'.id = wk.id := hstep.same.1
  have hext := hstep.extends
  have hes : es ⊆ es ++ (wk.ended ev).toList := List.subset_append_left _ _
  -- the engine is still there, and the others are as they were
  have hworkers : ∀ v ∈ f.workers.rows, ∃ v' ∈ (f.workers.put wk').rows,
      v'.id = v.id ∧ v'.kinds = v.kinds := by
    intro v hv
    by_cases hvid : v.id = wk.id
    · obtain rfl := Table.eq_of_key_eq hv hwk hvid
      exact ⟨wk', Table.mem_put.mpr (.inl rfl), hid, hstep.kinds⟩
    · exact ⟨v, Table.mem_put.mpr (.inr ⟨hv, fun heq => hvid (heq.symm.trans hid)⟩), rfl, rfl⟩
  have htracks : wk'.Tracks sv (es ++ (wk.ended ev).toList) ∧
      ∀ x ∈ wk.ended ev, x.worker = wk.id ∧ x.execution ∈ executions sv.shown := by
    have hwk := h.workers wk hwk
    cases hended : wk.ended ev with
    | none =>
      refine ⟨?_, fun x hx => nomatch hx⟩
      rw [Option.toList_none, List.append_nil]
      exact hwk.step (hsound.workers wk ‹_›) hsound.fresh hstep hended
    | some x =>
      obtain ⟨claim, result, rfl⟩ : ∃ claim result, ev = .handled claim result := by
        cases ev with
        | handled claim result => exact ⟨claim, result, rfl⟩
        | _ => cases hended
      obtain ⟨rfl, y, hy, hexec, htracks⟩ := hwk.handled hs
      obtain rfl := Option.some.inj (hy.symm.trans hended)
      refine ⟨htracks, fun z hz => ?_⟩
      obtain rfl := Option.some.inj hz
      obtain ⟨v, -, rfl⟩ := Option.map_eq_some_iff.mp hy
      exact ⟨rfl, hexec⟩
  have hnew : ∀ {x}, x ∈ es ++ (wk.ended ev).toList → x ∈ es ∨ x ∈ wk.ended ev := fun hx =>
    (List.mem_append.mp hx).imp_right Option.mem_toList.mp
  refine ⟨fun v hv => ?_, fun x hx => ?_, fun x hx => ?_, fun x hx => ?_⟩
  · rcases Table.mem_put.mp hv with rfl | ⟨hv, hne⟩
    · exact htracks.1
    · have hkept := (h.workers v hv).mono hext
      cases hended : wk.ended ev with
      | none =>
        rw [Option.toList_none, List.append_nil]
        exact hkept
      | some x =>
        refine hkept.other fun heq => hne ?_
        exact hid.trans ((htracks.2 x hended).1.symm.trans heq)
  · rcases hnew hx with hx | hx
    · obtain ⟨v, hv, hworker⟩ := h.known x hx
      obtain ⟨v', hv', hvid, -⟩ := hworkers v hv
      exact ⟨v', hv', hvid.trans hworker⟩
    · exact ⟨wk', Table.mem_put.mpr (.inl rfl), hid.trans (htracks.2 x hx).1.symm⟩
  · rcases hnew hx with hx | hx
    · exact executions_mono hext (h.executed x hx)
    · exact (htracks.2 x hx).2
  · have hkept : x ∈ f.server.begun →
        x.op.Justified ⟨sv, f.workers.put wk'⟩ (es ++ (wk.ended ev).toList) :=
      fun hx => (h.calls x hx).mono hes hworkers
    rcases hstep.called hx with hx | hlease | ⟨task, hk, hop⟩ | ⟨d, hd, result, hstage, hop⟩
    · exact hkept hx
    · exact .lease hlease
    · obtain ⟨v', hv', hvid, hkinds⟩ := hworkers wk hwk
      rw [hop, Worker.callFor, Worker.execution, ← hvid]
      exact .missing hv' (hkinds ▸ hk)
    · rw [hop]
      exact .outcome (e := ⟨wk.id, d.task, result⟩)
        (hes ((h.workers wk hwk).returned d hd result hstage))

/-- **What a step of a fleet keeps.** -/
theorem Tracked.step (h : f.Tracked es) (hsound : f.Sound) (hs : f.step e = some (f', o)) :
    f'.Tracked (es ++ (f.ended e).toList) := by
  have hexecuted : f.server.Extends f'.server →
      ∀ x ∈ es, x.execution ∈ executions f'.server.shown :=
    fun hext x hx => executions_mono hext (h.executed x hx)
  have hrefl : ∀ wk ∈ f.workers.rows,
      ∃ wk' ∈ f.workers.rows, wk'.id = wk.id ∧ wk'.kinds = wk.kinds :=
    fun wk hwk => ⟨wk, hwk, rfl, rfl⟩
  cases e with
  | worker w ev =>
    simp only [Fleet.step] at hs
    split at hs
    next wk hw =>
      obtain ⟨hwk, rfl⟩ := Table.get_eq_some hw
      obtain ⟨⟨wk', sv, o'⟩, hwork, heq⟩ := Option.map_eq_some_iff.mp hs
      cases heq
      have hended : f.ended (.worker wk.id ev) = wk.ended ev := by
        rw [Fleet.ended, hw]
        rfl
      rw [hended]
      exact h.worker hsound hwk hwork
    · cases hs
  | call c b =>
    rw [show f.ended (.call c b) = none from rfl, Option.toList_none, List.append_nil]
    have hstep := step_of_step hs
    have hext := hstep.extends
    cases hstep with
    | call hc hcall =>
      refine ⟨fun wk hwk => (h.workers wk hwk).mono hext, h.known, hexecuted hext, fun x hx => ?_⟩
      obtain ⟨_, -, -, -, hbegun⟩ := Server.call_eq_some hcall
      rcases List.mem_cons.mp (hbegun ▸ hx) with rfl | hx
      · exact .client hc
      · exact (h.calls x hx).mono (List.Subset.refl _) hrefl
  | database ev =>
    rw [show f.ended (.database ev) = none from rfl, Option.toList_none, List.append_nil]
    have hstep := step_of_step hs
    have hext := hstep.extends
    cases hstep with
    | database hp =>
      refine ⟨fun wk hwk => (h.workers wk hwk).mono hext, h.known, hexecuted hext, fun x hx => ?_⟩
      obtain ⟨-, _, -, -, -, hbegun⟩ := Server.proceed_eq_some hp
      exact (h.calls x (hbegun ▸ hx)).mono (List.Subset.refl _) hrefl
  | start id auditLog queue config kinds =>
    rw [show f.ended (.start ..) = none from rfl, Option.toList_none, List.append_nil]
    cases step_of_step hs with
    | start hn =>
      have hkeep : ∀ wk ∈ f.workers.rows,
          wk ∈ (f.workers.put (.start id auditLog queue config kinds)).rows := fun wk hwk =>
        Table.mem_put.mpr (.inr ⟨hwk, (Table.get_eq_none_iff.mp hn wk hwk).symm⟩)
      refine ⟨fun wk hwk => ?_, fun x hx => ?_, h.executed, fun x hx => ?_⟩
      · rcases Table.mem_put.mp hwk with rfl | ⟨hwk, -⟩
        · -- no handler of the new engine has ended, since its id is new
          refine ⟨fun _ hd => (by cases hd), fun _ hv => (by cases hv), fun _ hv => (by cases hv),
            fun _ _ hv => (by cases hv), fun _ hd => (by cases hd), fun x hx hid => ?_⟩
          obtain ⟨wk, hwk, hworker⟩ := h.known x hx
          exact absurd (hworker.trans hid) (Table.get_eq_none_iff.mp hn wk hwk)
        · exact h.workers wk hwk
      · obtain ⟨wk, hwk, hid⟩ := h.known x hx
        exact ⟨wk, hkeep wk hwk, hid⟩
      · exact (h.calls x hx).mono (List.Subset.refl _) fun wk hwk => ⟨wk, hkeep wk hwk, rfl, rfl⟩

end Fleet

theorem Watched.sound {os : List (Option HandlerEnd)} (h : Watched os f) : f.Sound := by
  induction h with
  | init => exact Fleet.sound_idle
  | next _ _ hs ih =>
    obtain ⟨⟨f', o⟩, hstep, heq⟩ := Option.map_eq_some_iff.mp hs
    cases heq
    exact ih.step (Fleet.step_of_step hstep)

/-- **The engines of every run track their handlers.** -/
theorem Watched.tracked {os : List (Option HandlerEnd)} (h : Watched os f) :
    f.Tracked (ends os) := by
  induction h with
  | init => exact Fleet.tracked_idle
  | @next os f e f' x hr _ hs ih =>
    obtain ⟨⟨f', o⟩, hstep, heq⟩ := Option.map_eq_some_iff.mp hs
    cases heq
    have hends : ends (os ++ [f.ended e]) = ends os ++ (f.ended e).toList := by
      unfold ends
      rw [List.filterMap_append]
      cases f.ended e <;> rfl
    rw [hends]
    exact ih.step (Watched.sound hr) hstep

/-! ## Statuses -/

/-- A row is completed, or suspended, by the update that says so, or it has been before. -/
theorem Update.Rewrites.reached {b : Began} {u : Update} {r r' : TaskRow} (h : Rewrites b u r r') :
    r'.id = r.id ∧
      (r'.status = .completed → u = .complete r.id ∨ r.status = .completed) ∧
      (r'.status = .suspended → u = .suspend r.id ∨ r.status = .suspended) := by
  cases h with
  | complete => exact ⟨rfl, fun _ => .inl rfl, nofun⟩
  | suspend => exact ⟨rfl, nofun, fun _ => .inl rfl⟩
  | cleanupExpiredIdempotencyKeys | writeCheckpoint => exact ⟨rfl, .inr, .inr⟩
  | _ => exact ⟨rfl, nofun, nofun⟩

theorem Op.eq_of_mem_updates {op : Op} {u : Update} (h : u ∈ op.updates) (id : TaskId) :
    (u = .complete id → op = .complete id) ∧ (u = .suspend id → op = .suspend id) := by
  constructor
  · rintro rfl
    cases op with
    | complete =>
      cases List.mem_singleton.mp h
      rfl
    | recoverZombieTasks => simp [Op.updates] at h
    | save | saveIdempotent | inTx | findById => cases h
    | _ => cases List.mem_singleton.mp h
  · rintro rfl
    cases op with
    | suspend =>
      cases List.mem_singleton.mp h
      rfl
    | recoverZombieTasks => simp [Op.updates] at h
    | save | saveIdempotent | inTx | findById => cases h
    | _ => cases List.mem_singleton.mp h

section Earned

variable {c : Call}

/-- Justified calls insert pending tasks. -/
theorem Call.Justified.pending (h : c.Justified f es) : c.SavesPending := by
  cases h with
  | client hc => exact hc.pending
  | @lease c hc =>
    obtain ⟨a, op, onBehalf⟩ := c
    intro task ht
    cases op with
    | claimNext | releaseLeaseForTask | releaseLeasesForWorker => cases ht
    | _ => exact hc.elim
  | @outcome a config e =>
    intro task ht
    obtain ⟨w, rec, result⟩ := e
    cases result <;> cases ht
  | missing => exact fun task ht => nomatch ht

/-- A completion is the outcome of a handler that has returned without an error. -/
theorem Call.Justified.completed (h : c.Justified f es) {id : TaskId} (hop : c.op = .complete id) :
    ∃ e ∈ es, e.result = .ok ∧ e.task.id = id ∧ c.onBehalf = some e.execution := by
  cases h with
  | client hc =>
    have hclient := hc.op
    rw [hop] at hclient
    exact hclient.elim
  | lease hc =>
    rw [hop] at hc
    exact hc.elim
  | @outcome a config e he =>
    obtain ⟨w, task, result⟩ := e
    cases result with
    | ok =>
      cases hop
      exact ⟨_, he, rfl, rfl, rfl⟩
    | _ => cases hop
  | missing => cases hop

/-- A suspension is the outcome of a handler that has asked for it. -/
theorem Call.Justified.suspended (h : c.Justified f es) {id : TaskId} (hop : c.op = .suspend id) :
    ∃ e ∈ es, e.result = .suspendRequested ∧ e.task.id = id ∧ c.onBehalf = some e.execution := by
  cases h with
  | client hc =>
    have hclient := hc.op
    rw [hop] at hclient
    exact hclient.elim
  | lease hc =>
    rw [hop] at hc
    exact hc.elim
  | @outcome a config e he =>
    obtain ⟨w, task, result⟩ := e
    cases result with
    | suspendRequested =>
      cases hop
      exact ⟨_, he, rfl, rfl, rfl⟩
    | _ => cases hop
  | missing => cases hop

/-- A failure tells the error of a handler, or its panic, or that there is no handler. -/
theorem Call.Justified.failed (h : c.Justified f es) {id : TaskId} {text : String} {base max : ℚ}
    (hop : c.op = .fail id text base max) :
    (∃ e ∈ es, e.task.id = id ∧ c.onBehalf = some e.execution ∧
      (e.result = .err text ∨ ∃ message, e.result = .panicked message ∧
        text = (ExecutionErrorKind.handlerPanicked message).display)) ∨
    ∃ wk ∈ f.workers.rows, ∃ task, task.id = id ∧ c.onBehalf = some (wk.execution task) ∧
      task.kind.asStr ∉ wk.kinds ∧
        text = (ExecutionErrorKind.missingHandler task.kind.asStr).display := by
  cases h with
  | client hc =>
    have hclient := hc.op
    rw [hop] at hclient
    exact hclient.elim
  | lease hc =>
    rw [hop] at hc
    exact hc.elim
  | @outcome a config e he =>
    obtain ⟨w, task, result⟩ := e
    cases result with
    | err text =>
      cases hop
      exact .inl ⟨_, he, rfl, rfl, .inl rfl⟩
    | panicked message =>
      cases hop
      exact .inl ⟨_, he, rfl, rfl, .inr ⟨message, rfl, rfl⟩⟩
    | _ => cases hop
  | missing hwk hk =>
    cases hop
    exact .inr ⟨_, hwk, _, rfl, rfl, hk, rfl⟩

/-- What has been committed has been called. -/
theorem Fleet.Tracked.justified (h : f.Tracked es) (hsound : f.Sound) {sid : ℕ} {call : Call}
    {b : Began} {cs : List (Change TaskRow)} {ls : List (ℕ × AuditRow)} {reply : Reply}
    (ho : Output.committed sid call b cs ls reply ∈ f.server.shown) : call.Justified f es := by
  obtain ⟨⟨x, hx, -, hop⟩, -⟩ := hsound.fresh.ended _ ho sid rfl
  obtain rfl : call = x.op := Option.some.inj hop
  exact h.calls x hx

/-- **Statuses are earned**: where a row is completed, or suspended, a handler has said so. By
induction on the history of the task. -/
theorem Fleet.Tracked.status (h : f.Tracked es) (hsound : f.Sound) {r : TaskRow}
    (hr : r ∈ f.server.db.table.rows) :
    (r.status = .completed → ∃ e ∈ es, e.result = .ok ∧ e.task.id = r.id) ∧
      (r.status = .suspended → ∃ e ∈ es, e.result = .suspendRequested ∧ e.task.id = r.id) := by
  have hrun : Runs OnBehalf .empty f.server.shown f.server.db := hsound.served
  have hkeeps := Runs.keeps (I := fun r =>
    (r.status = .completed → ∃ e ∈ es, e.result = .ok ∧ e.task.id = r.id) ∧
      (r.status = .suspended → ∃ e ∈ es, e.result = .suspendRequested ∧ e.task.id = r.id))
    hrun r.id (fun _ hnone => nomatch hnone) ?_
  · exact hkeeps.1 r (Table.get_key_of_mem hr)
  intro x hx hold
  obtain ⟨⟨o, ho, hxo⟩, -⟩ := mem_history.mp hx
  have hcaused := hrun.caused r.id x hx
  cases o with
  | committed sid call b cs ls reply =>
    obtain ⟨c, hc, rfl⟩ := List.mem_map.mp hxo
    have hjust := h.justified hsound ho
    generalize hchange : (Entry.mk call b c).change = change at hcaused hold ⊢
    cases hcaused with
    | @insert task lastError ht =>
      have hs : (insertedRow b task lastError).status = .pending := hjust.pending task ht
      constructor
      · intro hc
        cases hs.symm.trans hc
      · intro hc
        cases hs.symm.trans hc
    | @update u r₀ r' hu hrw =>
      obtain ⟨hid, hcompleted, hsuspended⟩ := hrw.reached
      obtain ⟨hop, hop'⟩ := Op.eq_of_mem_updates hu r₀.id
      obtain ⟨hold, hold'⟩ := hold r₀ rfl
      constructor
      · intro hc
        rw [show (Change.mk (some r₀) r').new.id = r₀.id from hid]
        rcases hcompleted hc with hu | hs
        · obtain ⟨e, he, hresult, htask, -⟩ := hjust.completed (hop hu)
          exact ⟨e, he, hresult, htask⟩
        · exact hold hs
      · intro hc
        rw [show (Change.mk (some r₀) r').new.id = r₀.id from hid]
        rcases hsuspended hc with hu | hs
        · obtain ⟨e, he, hresult, htask, -⟩ := hjust.suspended (hop' hu)
          exact ⟨e, he, hresult, htask⟩
        · exact hold' hs
  | _ => cases hxo

end Earned

/-! ## Results -/

/-- **Outcomes are what handlers have returned, and what they return is sent.** In every run of any
engines, with their crashes, aborts and lost connections, among the calls of clients: a completion,
a suspension or a failure that is committed is the result that a handler of the execution it is made
for has returned before, or tells that the engine has no handler for the task; a task that is
completed or suspended has a handler that has said so; and each result of a handler has been sent to
the database, or its dispatch holds it, or its engine has given its dispatches up. -/
theorem results_reported {os : List (Option HandlerEnd)} {f : Fleet} (h : Watched os f) :
    f.Earned (ends os) ∧ f.Settles (ends os) := by
  have hsound := h.sound
  have htracked := h.tracked
  constructor
  · exact {
      completed := fun _ _ _ _ _ _ _ ho hop => (htracked.justified hsound ho).completed hop
      suspended := fun _ _ _ _ _ _ _ ho hop => (htracked.justified hsound ho).suspended hop
      failed := fun _ _ _ _ _ _ _ _ _ _ ho hop => (htracked.justified hsound ho).failed hop
      statusCompleted := fun r hr => (htracked.status hsound hr).1
      statusSuspended := fun r hr => (htracked.status hsound hr).2 }
  · refine ⟨htracked.executed, fun e he => ?_⟩
    obtain ⟨wk, hwk, hid⟩ := htracked.known e he
    exact ⟨wk, hwk, hid, (htracked.workers wk hwk).sent e he hid.symm⟩

/-- A task is submitted, claimed, handled and reported. -/
def handledMoves : List Fleet.Event :=
  serveMoves 0 (callOf (.save (sampleTask .default))) 0 1 ++
  [startMove ⟨7⟩, .worker ⟨7⟩ (.tick ⟨10⟩), .database (.exec 1 .all), .database (.finish 1),
    .worker ⟨7⟩ (.claimed false ⟨0⟩), .worker ⟨7⟩ (.dispatch 1 ⟨20⟩), .worker ⟨7⟩ (.handled 1 .ok),
    .worker ⟨7⟩ (.report 1 ⟨30⟩), .database (.exec 2 .all), .database (.finish 2)]

/-- In the sample the task is completed, since its handler has returned without an error. -/
theorem handled_reported : ∃ os f, Watched os f ∧
    (∃ r ∈ f.server.db.table.rows, r.id = ⟨1⟩ ∧ r.status = .completed) ∧
    ∃ e ∈ ends os, e.result = .ok ∧ e.task.id = ⟨1⟩ ∧ e.Wrote f.server := by
  have hrun : (run Fleet.watch .idle handledMoves).isSome = true := by decide +kernel
  obtain ⟨⟨f, os⟩, hrun⟩ := Option.isSome_iff_exists.mp hrun
  have h : Watched os f :=
    Reaches.of_run .init (Admitted.of_forall (fun _ _ _ => trivial) handledMoves [] _) hrun
  have hrow : ((run Fleet.watch .idle handledMoves).any fun r =>
      r.1.server.db.table.rows.any fun r => r.id = ⟨1⟩ && r.status = .completed) = true := by
    decide +kernel
  have hstage : ((run Fleet.watch .idle handledMoves).any fun r => r.1.workers.rows.all fun wk =>
      wk.stage = .polling && wk.joinSet.rows.all fun d => d.stage = .writing 2) = true := by
    decide +kernel
  rw [hrun] at hrow hstage
  obtain ⟨r, hr, hstatus⟩ := List.any_eq_true.mp hrow
  rw [Bool.and_eq_true, decide_eq_true_eq, decide_eq_true_eq] at hstatus
  obtain ⟨hearned, hsettles⟩ := results_reported h
  obtain ⟨e, he, hresult, htask⟩ := hearned.statusCompleted r hr hstatus.2
  refine ⟨os, f, h, ⟨r, hr, hstatus⟩, e, he, hresult, htask.trans hstatus.1, ?_⟩
  -- the engine polls, and its dispatch waits for the answer
  obtain ⟨wk, hwk, -, hw | ⟨d, hd, -, hs⟩ | hup⟩ := hsettles.sent e he
  · exact hw
  all_goals
    have hwk := List.all_eq_true.mp hstage wk hwk
    rw [Bool.and_eq_true, decide_eq_true_eq] at hwk
  · have hd := of_decide_eq_true (List.all_eq_true.mp hwk.2 d hd)
    rw [hd] at hs
    cases hs
  · rw [hwk.1] at hup
    exact hup.elim

end IronDefer
