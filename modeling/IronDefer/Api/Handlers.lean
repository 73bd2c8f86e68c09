import IronDefer.Api.Leases

/-!
# Handlers and the release of leases

A handler runs in a task of its own. When the drain takes too long, the dispatches are aborted and
joined before all leases are released; a handler that is still executing is not: dropping the handle
of its task detaches it. It runs on while its task is claimed again, and while the engine returns.
No handler outlives the release of its lease exactly where, when the drain times out, every dispatch
of the engine is past its handler.

## Main definitions

* `Worker.HandlersDone`: no handler runs for an engine, and no dispatch has one to start
* `Fleet.ReleasesQuietly`: however a fleet goes on when a drain has timed out, no handler of the
  engine runs when its leases are released, nor later

## Main results

* `releases_quietly_iff`: **when no handler outlives the release of its lease**
* `handler_outlives_release`: a task that is executed twice at a time
-/

namespace IronDefer

open RowStore

/-- The release of all leases has been issued, or the engine has gone on since. -/
def Stage.Released : Stage → Prop
  | .releasingAll _ | .joining _ | .returned _ => True
  | _ => False

/-- The drain has timed out, and the engine will neither poll nor drain again. -/
def Stage.Aborted : Stage → Prop
  | .aborting | .releasingAll _ | .joining _ | .returned _ | .crashed => True
  | _ => False

/-- No handler runs for the engine, and no dispatch it has will start one. -/
structure Worker.HandlersDone (wk : Worker) : Prop where
  idle : wk.handlers.rows = []
  spawned : ∀ d ∈ wk.joinSet.rows, d.stage = .spawned → d.task.kind.asStr ∉ wk.kinds

/-- However the fleet goes on when the drain of `w` times out now: no handler of `w` runs when the
release of its leases is issued, nor later, when the engine has returned. -/
def Fleet.ReleasesQuietly (f : Fleet) (w : WorkerId) : Prop :=
  ∀ f₁ o, f.step (.worker w .timedOut) = some (f₁, o) →
    ∀ os f', Reaches Fleet.step (fun _ _ _ => True) f₁ os f' →
      ∀ wk, f'.workers.get w = some wk → wk.stage.Released → wk.handlers.rows = []

/-! ## Dispatches past their handlers -/

namespace Worker

variable {wk wk' : Worker} {sv sv' : TaskServer} {e : Event} {o : FleetOutput}

/-- An engine whose drain has timed out does not poll again. -/
theorem Step.aborted (h : wk.Step sv e wk' sv' o) (hs : wk.stage.Aborted) : wk'.stage.Aborted := by
  cases h with
  | cancel | execute | missing | handled | handledAlone | report | reported | abort => exact hs
  | timedOut | releaseAll | releasedAll | ret | crash | drained => trivial
  | stop _ hs' =>
    rcases hs' with hs' | hs' <;> rw [hs'] at hs <;> exact hs.elim
  | _ hs' =>
    rw [hs'] at hs
    exact hs.elim

theorem HandlersDone.of_joinSet (h : wk.HandlersDone) (hhandlers : wk'.handlers = wk.handlers)
    (hkinds : wk'.kinds = wk.kinds)
    (hjoin : ∀ d ∈ wk'.joinSet.rows, d.stage = .spawned → d ∈ wk.joinSet.rows) :
    wk'.HandlersDone where
  idle := by rw [hhandlers]; exact h.idle
  spawned d hd hs := by rw [hkinds]; exact h.spawned d (hjoin d hd hs) hs

/-- No handler is started where none is left to start. -/
theorem HandlersDone.step (h : wk.HandlersDone) (hs : wk.Step sv e wk' sv' o)
    (haborted : wk.stage.Aborted) : wk'.HandlersDone := by
  have hadvance : ∀ {d₀ : Dispatch} {stage}, stage ≠ .spawned →
      ∀ d ∈ (wk.advance d₀ stage).joinSet.rows, d.stage = .spawned → d ∈ wk.joinSet.rows := by
    intro d₀ stage hne d hd hspawned
    rcases Table.mem_put.mp hd with rfl | ⟨hd, -⟩
    · exact absurd hspawned hne
    · exact hd
  have hnone : ∀ {claim}, wk.handlers.get claim = none := by
    intro claim
    apply Table.get_eq_none_iff.mpr
    intro hd hmem
    rw [h.idle] at hmem
    cases hmem
  cases hs with
  -- a dispatch that is still to be executed has no handler to start
  | execute hd hspawned hkind =>
    exact absurd hkind (h.spawned _ (Table.get_eq_some hd).1 hspawned)
  | handled hh => rw [hnone] at hh; cases hh
  | handledAlone hh => rw [hnone] at hh; cases hh
  | missing => exact h.of_joinSet rfl rfl (hadvance fun hf => nomatch hf)
  | report => exact h.of_joinSet rfl rfl (hadvance fun hf => nomatch hf)
  | reported => exact h.of_joinSet rfl rfl (hadvance fun hf => nomatch hf)
  | abort => exact h.of_joinSet rfl rfl fun d hd _ => (Table.mem_erase.mp hd).1
  | drained => exact h.of_joinSet rfl rfl fun d hd => nomatch hd
  | crash => exact ⟨rfl, fun d hd => nomatch hd⟩
  | full hs' | tick hs' | spawn hs' =>
    rw [hs'] at haborted
    exact haborted.elim
  | _ => exact h.of_joinSet rfl rfl fun d hd _ => hd

end Worker

namespace Fleet

variable {f f' : Fleet} {w : WorkerId} {wk wk' : Worker} {e : Event} {o : FleetOutput}

/-- An engine of the fleet makes a step, or stays as it is. -/
theorem Step.get (hs : f.Step e f' o) (hw : f.workers.get w = some wk) :
    f'.workers.get w = some wk ∨ ∃ e' wk' sv, e = .worker w e' ∧ wk.Step f.server e' wk' sv o ∧
      f'.workers.get w = some wk' := by
  cases hs with
  | call => exact .inl hw
  | database => exact .inl hw
  | @start id _ _ _ _ hn =>
    refine .inl ?_
    have hne : id ≠ w := by
      rintro rfl
      rw [hn] at hw
      cases hw
    exact (Table.get_put_ne f.workers hne).trans hw
  | @worker w' e' v v' sv o hv hs =>
    obtain ⟨-, rfl⟩ := Table.get_eq_some hv
    have hid : v'.id = v.id := hs.same.1
    by_cases hvw : v.id = w
    · rw [hvw] at hv
      obtain rfl := Option.some.inj (hv.symm.trans hw)
      refine .inr ⟨e', v', sv, by rw [hvw], hs, ?_⟩
      rw [← hvw, ← hid]
      exact Table.get_put_self _ _
    · exact .inl ((Table.get_put_ne f.workers (by rw [hid]; exact hvw)).trans hw)

/-- **What is done stays done**: where every dispatch is past its handler when the drain times out,
no handler runs from then on. -/
theorem handlersDone_of_reaches {os : List FleetOutput}
    (h : Reaches Fleet.step (fun _ _ _ => True) f os f') (hw : f.workers.get w = some wk)
    (haborted : wk.stage.Aborted) (hdone : wk.HandlersDone) :
    ∃ wk', f'.workers.get w = some wk' ∧ wk'.stage.Aborted ∧ wk'.HandlersDone := by
  induction h with
  | init => exact ⟨wk, hw, haborted, hdone⟩
  | next _ _ hs ih =>
    obtain ⟨v, hv, hva, hvd⟩ := ih
    rcases (step_of_step hs).get hv with hkept | ⟨e', v', sv, -, hstep, hv'⟩
    · exact ⟨v, hkept, hva, hvd⟩
    · exact ⟨v', hv', hstep.aborted hva, hvd.step hstep hva⟩

/-! ## Handlers that run on -/

/-- A step of an engine is a step of its fleet. -/
theorem step_worker {e : Worker.Event} {sv : TaskServer} (hw : f.workers.get w = some wk)
    (hs : wk.step f.server e = some (wk', sv, o)) :
    f.step (.worker w e) = some (⟨sv, f.workers.put wk'⟩, o) ∧
      (f.workers.put wk').get w = some wk' := by
  refine ⟨by simp [step, hw, hs], ?_⟩
  obtain ⟨-, rfl⟩ := Table.get_eq_some hw
  rw [← (Worker.step_of_step hs).same.1]
  exact Table.get_put_self _ _

theorem reaches_worker {e : Worker.Event} {sv : TaskServer} (hw : f.workers.get w = some wk)
    (hs : wk.step f.server e = some (wk', sv, o)) :
    Reaches Fleet.step (fun _ _ _ => True) f [o] ⟨sv, f.workers.put wk'⟩ ∧
      (f.workers.put wk').get w = some wk' := by
  obtain ⟨hstep, hget⟩ := step_worker hw hs
  exact ⟨.next .init trivial hstep, hget⟩

/-- A client can always call. -/
theorem exists_call {sv : TaskServer} (h : sv.Fresh) (c : Call) (b : Began) :
    ∃ sv', sv.call c b = some sv' := by
  have hnone : sv.db.sessions.get sv.next = none := by
    apply Table.get_eq_none_iff.mpr
    intro s hs
    obtain ⟨x, hx, hid, -⟩ := h.opened s hs
    rw [← hid]
    exact Nat.ne_of_lt (h.lt x hx)
  apply Option.isSome_iff_exists.mp
  simp [TaskServer.call, Server.call, Db.step, hnone]

/-- An engine that aborts its dispatches gets to the release of its leases, while its handlers
run. -/
theorem exists_released_running (n : ℕ) (hfresh : f.server.Fresh) (hw : f.workers.get w = some wk)
    (hs : wk.stage = .aborting) (hn : wk.joinSet.rows.length ≤ n) :
    ∃ os f' wk', Reaches Fleet.step (fun _ _ _ => True) f os f' ∧ f'.workers.get w = some wk' ∧
      wk'.stage.Released ∧ wk'.handlers = wk.handlers := by
  -- the dispatches are aborted one by one, and joined, before the release is called
  induction n generalizing f wk with
  | zero =>
    have hnil : wk.joinSet.rows = [] := List.length_eq_zero_iff.mp (Nat.le_zero.mp hn)
    obtain ⟨sv, hc⟩ := exists_call hfresh wk.releaseAllCall ⟨0⟩
    have hstep : wk.step f.server (.releaseAll ⟨0⟩) =
        some ({ wk with stage := .releasingAll f.server.next }, sv, .silent) := by
      simp [Worker.step, hs, hnil, hc]
    obtain ⟨hr, hget⟩ := reaches_worker hw hstep
    exact ⟨_, _, _, hr, hget, trivial, rfl⟩
  | succ n ih =>
    by_cases hnil : wk.joinSet.rows = []
    · exact ih hfresh hw hs (by simp [hnil])
    · obtain ⟨d, hd⟩ := List.exists_mem_of_ne_nil _ hnil
      have hstep : wk.step f.server (.abort d.claim) =
          some ({ wk with joinSet := wk.joinSet.erase d.claim },
            f.server.leave (Worker.awaited d), .silent) := by
        simp [Worker.step, hs, Table.get_key_of_mem hd]
      obtain ⟨hr, hget⟩ := reaches_worker hw hstep
      have hlt : (wk.joinSet.erase d.claim).rows.length < wk.joinSet.rows.length :=
        List.length_filter_lt_length_iff_exists.mpr ⟨d, hd, by simp⟩
      have hnext := ih (f := ⟨_, _⟩) (hfresh.leave (Worker.awaited d)) hget
      obtain ⟨os, f', wk', hr', hget', hreleased, hhandlers⟩ :=
        hnext hs (Nat.le_of_lt_succ (Nat.lt_of_lt_of_le hlt hn))
      exact ⟨_, f', wk', hr.trans hr', hget', hreleased, hhandlers⟩

end Fleet

/-! ## The release -/

section Release

variable {f : Fleet} {os : List FleetOutput} {w : WorkerId} {wk : Worker}

/-- A handler that runs when the dispatches are aborted may run when the leases are released. -/
theorem Fleet.not_releasesQuietly {f₁ f₂ : Fleet} {o : FleetOutput} {ps : List FleetOutput}
    {wk₂ : Worker} (hs : f.step (.worker w .timedOut) = some (f₁, o))
    (hr : Reaches Fleet.step (fun _ _ _ => True) f₁ ps f₂) (hfresh : f₂.server.Fresh)
    (hw : f₂.workers.get w = some wk₂) (haborting : wk₂.stage = .aborting)
    (hrunning : wk₂.handlers.rows ≠ []) : ¬ f.ReleasesQuietly w := by
  intro hquiet
  obtain ⟨os, f', wk', hr', hw', hreleased, hhandlers⟩ :=
    Fleet.exists_released_running _ hfresh hw haborting (Nat.le_refl _)
  have hnil := hquiet f₁ o hs _ f' (hr.trans hr') wk' hw' hreleased
  rw [hhandlers] at hnil
  exact hrunning hnil

/-- **When no handler outlives the release of its lease.** In every run of a fleet, when the drain
of an engine can time out: however the fleet goes on from the time-out, no handler of the engine
runs when the release of all leases is issued nor when the engine returns, exactly if no handler
runs when the drain times out, and no dispatch has one to start. -/
theorem releases_quietly_iff (h : Fleets os f) (hw : f.workers.get w = some wk)
    (hdraining : wk.stage = .draining) (hbusy : wk.inFlight ≠ []) :
    f.ReleasesQuietly w ↔ wk.HandlersDone := by
  have hfresh := (Fleets.sound h).fresh
  have hstep : wk.step f.server .timedOut =
      some ({ wk with stage := .aborting }, f.server, .silent) := by
    simp [Worker.step, hdraining, hbusy]
  have htimedOut : f.step (.worker w .timedOut) =
      some (⟨f.server, f.workers.put { wk with stage := .aborting }⟩, .silent) := by
    simp [Fleet.step, hw, hstep]
  have hget := (Fleet.reaches_worker hw hstep).2
  constructor
  · intro hquiet
    refine ⟨?_, ?_⟩
    · by_contra hrunning
      exact Fleet.not_releasesQuietly htimedOut .init hfresh hget rfl hrunning hquiet
    · intro d hd hspawned hkind
      -- the dispatch is polled before it is aborted, and starts its handler
      have hdispatch : Worker.step { wk with stage := .aborting } f.server (.dispatch d.claim ⟨0⟩) =
          some ({ Worker.advance { wk with stage := .aborting } d .executing with
            handlers := wk.handlers.put ⟨d.claim, d.task⟩ }, f.server, .silent) := by
        simp [Worker.step, Table.get_key_of_mem hd, hspawned, hkind]
      obtain ⟨hr, hget'⟩ := Fleet.reaches_worker (f := ⟨f.server, _⟩) hget hdispatch
      refine Fleet.not_releasesQuietly htimedOut hr hfresh hget' rfl ?_ hquiet
      intro hnil
      have hmem : (⟨d.claim, d.task⟩ : Handler) ∈ (wk.handlers.put ⟨d.claim, d.task⟩).rows :=
        Table.mem_put.mpr (.inl rfl)
      rw [hnil] at hmem
      cases hmem
  · intro hdone f₁ o hs os' f' hr wk' hw' _
    rw [htimedOut] at hs
    obtain ⟨rfl, -⟩ := Prod.mk.inj (Option.some.inj hs)
    obtain ⟨v, hv, -, hvdone⟩ := Fleet.handlersDone_of_reaches hr hget trivial ⟨hdone.1, hdone.2⟩
    obtain rfl := Option.some.inj (hv.symm.trans hw')
    exact hvdone.idle

end Release

/-- The engine executes the task, and is cancelled while its handler runs. -/
def executingMoves : List Fleet.Event :=
  claimingMoves ++ [.worker ⟨7⟩ (.claimed false ⟨20⟩), .worker ⟨7⟩ (.dispatch 1 ⟨20⟩),
    .worker ⟨7⟩ .cancel, .worker ⟨7⟩ .stop]

/-- The drain times out, the engine aborts its dispatch, releases its leases and returns; a second
engine claims the task again, and executes it. -/
def outlivedMoves : List Fleet.Event :=
  executingMoves ++ [.worker ⟨7⟩ .timedOut, .worker ⟨7⟩ (.abort 1), .worker ⟨7⟩ (.releaseAll ⟨30⟩),
    .database (.exec 2 .all), .database (.finish 2), .worker ⟨7⟩ (.releasedAll false),
    .worker ⟨7⟩ .ret, startMove ⟨8⟩, .worker ⟨8⟩ (.tick ⟨40⟩), .database (.exec 3 .all),
    .database (.finish 3), .worker ⟨8⟩ (.claimed false ⟨50⟩), .worker ⟨8⟩ (.dispatch 3 ⟨50⟩)]

/-- The tasks whose handlers run for an engine that has come to a stage. -/
def Fleet.handling (f : Fleet) (w : WorkerId) : Option (Stage × List TaskId) :=
  (f.workers.get w).map fun wk => (wk.stage, wk.handlers.rows.map fun hd => hd.task.id)

/-- **A task that is executed twice at a time**: the handler of an engine that has returned runs on,
while another engine executes the task it has been released. -/
theorem handler_outlives_release :
    Fleets (Fleet.outputs outlivedMoves) (Fleet.after outlivedMoves) ∧
    (Fleet.after outlivedMoves).handling ⟨7⟩ = some (.returned (some true), [⟨1⟩]) ∧
    (Fleet.after outlivedMoves).handling ⟨8⟩ = some (.polling, [⟨1⟩]) :=
  ⟨Fleets.of_moves _ (by decide +kernel), by decide +kernel, by decide +kernel⟩

/-- The handler of the sample has ended when the engine is cancelled, and its outcome is
reported. -/
def reportingMoves : List Fleet.Event :=
  claimingMoves ++ [.worker ⟨7⟩ (.claimed false ⟨20⟩), .worker ⟨7⟩ (.dispatch 1 ⟨20⟩),
    .worker ⟨7⟩ (.handled 1 .ok), .worker ⟨7⟩ (.report 1 ⟨30⟩), .worker ⟨7⟩ .cancel,
    .worker ⟨7⟩ .stop]

/-- In the sample, no handler outlives the release of its lease. -/
theorem reporting_releases_quietly : (Fleet.after reportingMoves).ReleasesQuietly ⟨7⟩ := by
  have h : Fleets (Fleet.outputs reportingMoves) (Fleet.after reportingMoves) :=
    Fleets.of_moves _ (by decide +kernel)
  have hwk : ∃ wk, (Fleet.after reportingMoves).workers.get ⟨7⟩ = some wk :=
    Option.isSome_iff_exists.mp (by decide +kernel)
  have hall : ∀ wk ∈ (Fleet.after reportingMoves).workers.get ⟨7⟩, wk.stage = .draining ∧
      wk.inFlight ≠ [] ∧ wk.handlers.rows = [] ∧ ∀ d ∈ wk.joinSet.rows, d.stage ≠ .spawned := by
    decide +kernel
  obtain ⟨wk, hw⟩ := hwk
  obtain ⟨hdraining, hbusy, hidle, hstarted⟩ := hall wk hw
  exact (releases_quietly_iff h hw hdraining hbusy).mpr
    ⟨hidle, fun d hd hspawned => absurd hspawned (hstarted d hd)⟩

end IronDefer
