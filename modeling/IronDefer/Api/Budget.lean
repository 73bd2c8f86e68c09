import IronDefer.Api.Fleets
import IronDefer.Infrastructure.Attempts
import Mathlib.Order.Interval.Finset.Basic
import Mathlib.Data.Int.Interval

/-!
# The retry budget

A claim raises the attempts of its task without comparing them with their maximum, but a task whose
attempts exceed it does not decode, and is not dispatched. A task is therefore dispatched at most as
often as its maximum says, each time as another attempt. The attempts grow in the order in which the
claims commit; two engines may dispatch them in another order.

## Main definitions

* `dispatches`: the dispatches of a task, in their order
* `CommittedBefore`: the order in which claims have committed

## Main results

* `retry_budget`: **a task is dispatched at most as often as its maximum says**
* `dispatched_out_of_order`: the second attempt is dispatched before the first
-/

namespace IronDefer

open RowStore

/-- A dispatch of a claimed task. -/
structure Dispatched where
  claim : ℕ
  worker : WorkerId
  task : TaskRecord

/-- The attempt the task is dispatched as. -/
def Dispatched.attempt (d : Dispatched) : Int := d.task.attempts.get.val

def FleetOutput.dispatched? : FleetOutput → Option Dispatched
  | .dispatched claim w task => some ⟨claim, w, task⟩
  | _ => none

/-- The dispatches a fleet has shown. -/
def allDispatches (os : List FleetOutput) : List Dispatched := os.filterMap FleetOutput.dispatched?

/-- The dispatches of a task, in their order. -/
def dispatches (id : TaskId) (os : List FleetOutput) : List Dispatched :=
  (allDispatches os).filter fun d => decide (d.task.id = id)

/-- The transaction `sid` has ended before `sid'`. -/
def CommittedBefore (shown : List Outcome) (sid sid' : ℕ) : Prop :=
  ∃ ps o qs, shown = ps ++ o :: qs ∧ o.sid? = some sid ∧ ∃ o' ∈ qs, o'.sid? = some sid'

/-! ## Claims -/

section Claims

variable {ok : List Outcome → System → Move → Prop} {os : List Outcome} {db : System}

/-- The reply of a claim hands out the version it has committed, which has at least one attempt, and
not more than its maximum. -/
theorem Runs.claimed_bounds (h : Runs ok .empty os db) {o : Outcome} (ho : o ∈ os)
    {task : TaskRecord} (hreply : o.reply = some (.ok (.claimed (some task)))) :
    ∃ k, history task.id [o] = [k] ∧ k.IsClaim ∧ k.change.new.attempts.val = task.attempts.get.val ∧
      1 ≤ k.change.new.attempts.val ∧ k.change.new.attempts.val ≤ k.change.new.maxAttempts.val := by
  obtain ⟨sid, call, b, cs, ls, rfl, hspec⟩ := h.committed_of_response ho (by simp) hreply
  obtain ⟨c, rfl, hrec, -, queue, w, lease, region, hop⟩ := hspec.of_claimed rfl
  obtain ⟨hd, rfl⟩ := tryFrom_eq_ok_iff.mp hrec
  have hmem : (⟨call, b, c⟩ : Entry) ∈ history c.new.id os :=
    mem_history.mpr ⟨⟨_, ho, List.mem_map_of_mem List.mem_cons_self⟩, rfl⟩
  have hcaused : call.op.Causes b c := Runs.causes h _ ho c List.mem_cons_self
  refine ⟨⟨call, b, c⟩, by simp [history, Outcome.entries, TaskRow.record], ⟨_, _, _, _, hop⟩, rfl,
    ?_, hd.le⟩
  -- the version before the claim has no negative attempts, and the claim adds one
  have hvalid : ∀ r, c.old = some r → 0 ≤ r.attempts.val := by
    obtain ⟨pre, post, hsplit⟩ := List.append_of_mem hmem
    have hkeeps := h.keeps (I := fun r => 0 ≤ r.attempts.val) c.new.id (by simp)
      fun x hx _ => (h.valid_entry hx).nonneg
    exact (hkeeps.2 _ hmem).1
  rw [hop] at hcaused
  cases hcaused with
  | insert ht => cases ht
  | @update u r r' hu hrw =>
    have hcounts := (h.entry_counts hmem rfl).1
    rw [if_pos (by rw [hop]; trivial)] at hcounts
    have hold : 0 ≤ r.attempts.val := hvalid r rfl
    omega

/-- A claim that commits after another one hands out a later attempt, with the same maximum. -/
theorem Runs.attempts_lt_of_later (h : Runs ok .empty os db) {ps qs : List Outcome}
    {o o' : Outcome} (hos : os = ps ++ o :: qs) (ho' : o' ∈ qs) {id : TaskId} {k k' : Entry}
    (hk : history id [o] = [k]) (hk' : history id [o'] = [k']) (hclaim : k'.IsClaim) :
    k.change.new.attempts.val < k'.change.new.attempts.val ∧
      k.change.new.maxAttempts.val = k'.change.new.maxAttempts.val := by
  obtain ⟨rs, ts, rfl⟩ := List.append_of_mem ho'
  have hsplit : history id os = history id ps ++ k :: history id rs ++ k' :: history id ts := by
    rw [hos, history_append, history_cons id o, hk, history_append, history_cons id o', hk']
    simp
  refine ⟨h.attempts_lt_of_isClaim hsplit hclaim, ?_⟩
  obtain ⟨r, hold, hpath, hstep⟩ := h.path_between hsplit
  have hmax : r.life.maxAttempts = k.change.new.life.maxAttempts := hpath.maxAttempts_eq
  have hmax' : k'.change.new.life.maxAttempts = r.life.maxAttempts := hstep.attempts_eq.2
  exact (hmax'.trans hmax).symm

end Claims

/-! ## The order of commits -/

section CommittedBefore

variable {os : List Outcome} {sid sid' : ℕ}

theorem CommittedBefore.append (h : CommittedBefore os sid sid') (ps : List Outcome) :
    CommittedBefore (os ++ ps) sid sid' := by
  obtain ⟨ws, o, qs, rfl, ho, o', ho', hsid'⟩ := h
  exact ⟨ws, o, qs ++ ps, by simp, ho, o', List.mem_append_left _ ho', hsid'⟩

theorem committedBefore_of_later {ps : List Outcome} {o o' : Outcome} (ho : o ∈ os) (ho' : o' ∈ ps)
    (hsid : o.sid? = some sid) (hsid' : o'.sid? = some sid') :
    CommittedBefore (os ++ ps) sid sid' := by
  obtain ⟨ws, qs, rfl⟩ := List.append_of_mem ho
  exact ⟨ws, o, qs ++ ps, by simp, hsid, o', List.mem_append_right _ ho', hsid'⟩

/-- Of two transactions that have ended, one has ended before the other. -/
theorem committedBefore_total {o o' : Outcome} (ho : o ∈ os) (ho' : o' ∈ os)
    (hsid : o.sid? = some sid) (hsid' : o'.sid? = some sid') (hne : o ≠ o') :
    CommittedBefore os sid sid' ∨ CommittedBefore os sid' sid := by
  obtain ⟨ps, qs, rfl⟩ := List.append_of_mem ho
  rcases List.mem_append.mp ho' with hp | hq
  · obtain ⟨rs, ts, rfl⟩ := List.append_of_mem hp
    exact .inr ⟨rs, o', ts ++ o :: qs, by simp, hsid', o, by simp, hsid⟩
  · rcases List.mem_cons.mp hq with rfl | hq
    · exact absurd rfl hne
    · exact .inl ⟨ps, o, qs, rfl, hsid, o', hq, hsid'⟩

end CommittedBefore

/-! ## Dispatches -/

@[simp] theorem allDispatches_nil : allDispatches [] = [] := rfl

theorem allDispatches_append (os : List FleetOutput) (o : FleetOutput) :
    allDispatches (os ++ [o]) = allDispatches os ++ o.dispatched?.toList := by
  rw [allDispatches, List.filterMap_append]
  cases h : o.dispatched? <;> simp [allDispatches, h]

theorem mem_dispatches {id : TaskId} {os : List FleetOutput} {d : Dispatched} :
    d ∈ dispatches id os ↔ d ∈ allDispatches os ∧ d.task.id = id := by
  simp [dispatches]

namespace Worker

variable {wk wk' : Worker} {sv sv' : TaskServer} {e : Event} {o : FleetOutput}

/-- An engine waits for a claim it has just sent, or waited for it before. -/
theorem Step.claiming (h : wk.Step sv e wk' sv' o) {sid : ℕ} (hs : wk'.stage = .claiming sid) :
    wk.stage = .claiming sid ∨ ∃ c b, sv.call c b = some sv' ∧ sid = sv.next := by
  cases h with
  | tick _ _ hc =>
    cases hs
    exact .inr ⟨_, _, hc, rfl⟩
  | cancel | full | execute | missing | handled | handledAlone | report | reported | abort =>
    exact .inl hs
  | _ => cases hs

/-- What an engine dispatches is the answer to the claim it waits for. -/
theorem Step.dispatched (h : wk.Step sv e wk' sv' o) {d : Dispatched}
    (hd : o.dispatched? = some d) :
    wk.stage = .claiming d.claim ∧ wk'.stage = .polling ∧ sv' = sv ∧ d.worker = wk.id ∧
      sv.answer? d.claim = some (some (.ok (.claimed (some d.task)))) := by
  cases h with
  | spawn hs _ ha =>
    cases hd
    exact ⟨hs, rfl, rfl, rfl, ha⟩
  | @released _ _ _ r =>
    cases r <;> cases hd
  | @reported _ _ _ _ r =>
    cases r <;> cases hd
  | _ => cases hd

end Worker

namespace Fleet

/-- Every dispatch is the answer to a claim, no claim is dispatched twice, and an engine dispatches
in the order in which its claims have committed. -/
structure Distinct (f : Fleet) (os : List FleetOutput) : Prop where
  handed : ∀ d ∈ allDispatches os, ∃ o ∈ f.server.shown,
    o.sid? = some d.claim ∧ o.reply = some (.ok (.claimed (some d.task)))
  once : ((allDispatches os).map Dispatched.claim).Nodup
  ordered : (allDispatches os).Pairwise fun d d' =>
    d.worker = d'.worker → CommittedBefore f.server.shown d.claim d'.claim
  waiting : ∀ wk ∈ f.workers.rows, ∀ sid, wk.stage = .claiming sid → ∀ d ∈ allDispatches os,
    d.claim ≠ sid ∧ (d.worker = wk.id → (∃ o ∈ f.server.shown, o.sid? = some sid) →
      CommittedBefore f.server.shown d.claim sid)

variable {f f' : Fleet} {os : List FleetOutput} {e : Event} {o : FleetOutput}

theorem distinct_idle : idle.Distinct [] where
  handed _ hd := nomatch hd
  once := .nil
  ordered := .nil
  waiting _ hwk := nomatch hwk

/-- An engine that waits for a claim is the only one. -/
theorem Sound.claiming_unique (h : f.Sound) {wk wk' : Worker} (hwk : wk ∈ f.workers.rows)
    (hwk' : wk' ∈ f.workers.rows) {sid : ℕ} (hs : wk.stage = .claiming sid)
    (hs' : wk'.stage = .claiming sid) : wk.id = wk'.id := by
  obtain ⟨x, hx, hid, hop⟩ := (h.workers wk hwk).claiming sid hs
  obtain ⟨y, hy, hid', hop'⟩ := (h.workers wk' hwk').claiming sid hs'
  rw [h.fresh.unique x hx y hy (hid.trans hid'.symm), hop'] at hop
  exact ((Op.claimNext.inj (Call.mk.inj hop).2.1).2.1).symm

/-- What has been dispatched stays so, whatever the database shows later. -/
theorem Distinct.extend (h : f.Distinct os) {sv : TaskServer} (hext : f.server.Extends sv) :
    Distinct ⟨sv, f.workers⟩ os := by
  obtain ⟨ps, hps⟩ := hext.shown
  refine ⟨?_, h.once, ?_, ?_⟩
  · intro d hd
    obtain ⟨o, ho, hsid, hreply⟩ := h.handed d hd
    exact ⟨o, hext.mem_shown ho, hsid, hreply⟩
  · apply h.ordered.imp
    intro d d' hbefore hw
    change CommittedBefore sv.shown d.claim d'.claim
    rw [hps]
    exact (hbefore hw).append ps
  · intro wk hwk sid hs d hd
    obtain ⟨hne, hbefore⟩ := h.waiting wk hwk sid hs d hd
    refine ⟨hne, ?_⟩
    rintro hw ⟨o', ho', hsid'⟩
    change o' ∈ sv.shown at ho'
    change CommittedBefore sv.shown d.claim sid
    rw [hps] at ho' ⊢
    -- the claim has ended before, or it ends after the one that has been dispatched
    rcases List.mem_append.mp ho' with ho' | ho'
    · exact (hbefore hw ⟨o', ho', hsid'⟩).append ps
    · obtain ⟨o, ho, hsid, -⟩ := h.handed d hd
      exact committedBefore_of_later ho ho' hsid hsid'

/-- A claim that has just been sent comes after everything that has been dispatched. -/
theorem Distinct.called (h : f.Distinct os) (hsound : f.Sound) {c : Call} {b : Began}
    {sv : TaskServer}
    (hc : f.server.call c b = some sv) {d : Dispatched} (hd : d ∈ allDispatches os) :
    d.claim ≠ f.server.next ∧ ¬ ∃ o ∈ sv.shown, o.sid? = some f.server.next := by
  have hended : ∀ o ∈ f.server.shown, ∀ sid, o.sid? = some sid → sid ≠ f.server.next := by
    intro o ho sid hsid
    obtain ⟨⟨x, hx, rfl, -⟩, -⟩ := hsound.fresh.ended o ho sid hsid
    exact Nat.ne_of_lt (hsound.fresh.lt x hx)
  constructor
  · obtain ⟨o, ho, hsid, -⟩ := h.handed d hd
    exact hended o ho _ hsid
  · rintro ⟨o, ho, hsid⟩
    obtain ⟨o', hs, hshown, -, -⟩ := Server.call_eq_some hc
    rw [hshown] at ho
    rcases List.mem_append.mp ho with ho | ho
    · exact hended o ho _ hsid rfl
    · rw [List.mem_singleton.mp ho, hs.sid?_of_start] at hsid
      cases hsid

/-- **No claim is dispatched twice.** -/
theorem Distinct.step (h : f.Distinct os) (hsound : f.Sound) (hs : f.Step e f' o) :
    f'.Distinct (os ++ [o]) := by
  have hext := h.extend hs.extends
  -- a step that dispatches nothing leaves the list of dispatches as it is
  have hsilent : ∀ {g : Fleet}, o.dispatched? = none → g.Distinct os → g.Distinct (os ++ [o]) := by
    intro g hnone hg
    have heq : allDispatches (os ++ [o]) = allDispatches os := by
      rw [allDispatches_append, hnone]
      exact List.append_nil _
    exact ⟨by rw [heq]; exact hg.handed, by rw [heq]; exact hg.once, by rw [heq]; exact hg.ordered,
      by rw [heq]; exact hg.waiting⟩
  cases hs with
  | call => exact hsilent rfl hext
  | database => exact hsilent rfl hext
  | start =>
    refine hsilent rfl ⟨hext.handed, hext.once, hext.ordered, ?_⟩
    intro wk hwk sid hs
    rcases Table.mem_put.mp hwk with rfl | ⟨hwk, -⟩
    · cases hs
    · exact hext.waiting wk hwk sid hs
  | @worker w e wk wk' sv o hw hs =>
    obtain ⟨hwk, rfl⟩ := Table.get_eq_some hw
    have hid : wk'.id = wk.id := hs.same.1
    cases hd : o.dispatched? with
    | none =>
      refine hsilent hd ⟨hext.handed, hext.once, hext.ordered, ?_⟩
      intro v hv sid hclaiming d hd
      rcases Table.mem_put.mp hv with rfl | ⟨hv, -⟩
      · rcases hs.claiming hclaiming with hold | ⟨c, b, hc, rfl⟩
        · rw [hid]
          exact hext.waiting wk hwk sid hold d hd
        · obtain ⟨hne, hno⟩ := h.called hsound hc hd
          exact ⟨hne, fun _ hended => absurd hended hno⟩
      · exact hext.waiting v hv sid hclaiming d hd
    | some d =>
      obtain ⟨hclaiming, hpolling, rfl, hworker, ha⟩ := hs.dispatched hd
      obtain ⟨o', ho', hsid', hreply', -⟩ := hsound.claimed hwk hclaiming ha
      -- the claim that was waiting is dispatched, and its worker waits no more
      have heq : allDispatches (os ++ [o]) = allDispatches os ++ [d] := by
        rw [allDispatches_append, hd]
        rfl
      refine ⟨?_, ?_, ?_, ?_⟩
      · rw [heq]
        intro d' hd'
        rcases List.mem_append.mp hd' with hd' | hd'
        · exact h.handed d' hd'
        · rw [List.mem_singleton.mp hd']
          exact ⟨o', ho', hsid', hreply'⟩
      · rw [heq, List.map_append]
        apply List.Nodup.append h.once (List.nodup_singleton _)
        rintro sid hold hnew
        obtain ⟨d', hd', rfl⟩ := List.mem_map.mp hold
        exact (h.waiting wk hwk _ hclaiming d' hd').1 (List.mem_singleton.mp hnew)
      · rw [heq]
        refine List.pairwise_append.mpr ⟨h.ordered, List.pairwise_singleton _ _, ?_⟩
        intro d' hd' d'' hd'' hw'
        rw [List.mem_singleton.mp hd''] at hw' ⊢
        exact (h.waiting wk hwk _ hclaiming d' hd').2 (hw'.trans hworker) ⟨o', ho', hsid'⟩
      · rw [heq]
        intro v hv sid hs' d' hd'
        rcases Table.mem_put.mp hv with rfl | ⟨hv, hne⟩
        · rw [hpolling] at hs'
          cases hs'
        · rcases List.mem_append.mp hd' with hd' | hd'
          · exact h.waiting v hv sid hs' d' hd'
          · rw [List.mem_singleton.mp hd', hworker]
            refine ⟨?_, fun hw' => absurd (hid.trans hw') hne⟩
            rintro rfl
            exact hne (hid.trans (hsound.claiming_unique hwk hv hclaiming hs'))

end Fleet

theorem Fleets.distinct {os : List FleetOutput} {f : Fleet} (h : Fleets os f) : f.Distinct os := by
  induction h with
  | init => exact Fleet.distinct_idle
  | next hr _ hs ih => exact ih.step (Fleets.sound hr) (Fleet.step_of_step hs)

/-! ## The budget -/

section Budget

variable {f : Fleet} {os : List FleetOutput}

/-- The entry of a dispatch is that of its claim. -/
theorem Fleet.Distinct.entry (h : f.Distinct os) (hsound : f.Sound) {d : Dispatched}
    (hd : d ∈ allDispatches os) : ∃ o ∈ f.server.shown, o.sid? = some d.claim ∧
      ∃ k, history d.task.id [o] = [k] ∧ k.IsClaim ∧ k.change.new.attempts.val = d.attempt ∧
        1 ≤ d.attempt ∧ d.attempt ≤ k.change.new.maxAttempts.val := by
  obtain ⟨o, ho, hsid, hreply⟩ := h.handed d hd
  obtain ⟨k, hk, hclaim, hatt, hpos, hle⟩ := hsound.served.claimed_bounds ho hreply
  rw [hatt] at hpos hle
  exact ⟨o, ho, hsid, k, hk, hclaim, hatt, hpos, hle⟩

/-- The later claim is the later attempt. -/
theorem Fleet.Distinct.attempt_lt (h : f.Distinct os) (hsound : f.Sound) {d d' : Dispatched}
    (hd : d ∈ allDispatches os) (hd' : d' ∈ allDispatches os) (hid : d.task.id = d'.task.id)
    (hbefore : CommittedBefore f.server.shown d.claim d'.claim) : d.attempt < d'.attempt := by
  obtain ⟨o, ho, hsid, k, hk, -, hatt, -, -⟩ := h.entry hsound hd
  obtain ⟨o', ho', hsid', k', hk', hclaim', hatt', -, -⟩ := h.entry hsound hd'
  obtain ⟨ps, p, qs, hshown, hp, p', hp', hpsid'⟩ := hbefore
  have hps : p ∈ f.server.shown := by
    rw [hshown]
    exact List.mem_append_right _ List.mem_cons_self
  have hps' : p' ∈ f.server.shown := by
    rw [hshown]
    exact List.mem_append_right _ (List.mem_cons_of_mem _ hp')
  obtain rfl := hsound.fresh.once p hps o ho d.claim hp hsid
  obtain rfl := hsound.fresh.once p' hps' o' ho' d'.claim hpsid' hsid'
  rw [← hid] at hk'
  have hlt := (hsound.served.attempts_lt_of_later hshown hp' hk hk' hclaim').1
  rwa [hatt, hatt'] at hlt

/-- Two dispatches of a task are ordered as their claims have committed. -/
theorem Fleet.Distinct.attempt_lt_iff (h : f.Distinct os) (hsound : f.Sound) {d d' : Dispatched}
    (hd : d ∈ allDispatches os) (hd' : d' ∈ allDispatches os) (hid : d.task.id = d'.task.id) :
    d.attempt < d'.attempt ↔ CommittedBefore f.server.shown d.claim d'.claim := by
  refine ⟨?_, h.attempt_lt hsound hd hd' hid⟩
  intro hlt
  obtain ⟨o, ho, hsid, k, hk, -, hatt, -, -⟩ := h.entry hsound hd
  obtain ⟨o', ho', hsid', k', hk', -, hatt', -, -⟩ := h.entry hsound hd'
  have hne : o ≠ o' := by
    rintro rfl
    rw [← hid, hk] at hk'
    obtain rfl := (List.cons.inj hk').1
    exact absurd (hatt.symm.trans hatt') (Int.ne_of_lt hlt)
  rcases committedBefore_total ho ho' hsid hsid' hne with hbefore | hafter
  · exact hbefore
  · exact absurd (h.attempt_lt hsound hd' hd hid.symm hafter) (Int.not_lt.mpr (Int.le_of_lt hlt))

/-- No attempt is dispatched twice. -/
theorem Fleet.Distinct.attempts_ne (h : f.Distinct os) (hsound : f.Sound) {d d' : Dispatched}
    (hd : d ∈ allDispatches os) (hd' : d' ∈ allDispatches os) (hid : d.task.id = d'.task.id)
    (hne : d.claim ≠ d'.claim) : d.attempt ≠ d'.attempt := by
  obtain ⟨o, ho, hsid, -⟩ := h.entry hsound hd
  obtain ⟨o', ho', hsid', -⟩ := h.entry hsound hd'
  have hoo : o ≠ o' := by
    rintro rfl
    exact hne (Option.some.inj (hsid.symm.trans hsid'))
  rcases committedBefore_total ho ho' hsid hsid' hoo with hbefore | hafter
  · exact Int.ne_of_lt (h.attempt_lt hsound hd hd' hid hbefore)
  · exact (Int.ne_of_lt (h.attempt_lt hsound hd' hd hid.symm hafter)).symm

theorem Fleet.Distinct.attempts_nodup (h : f.Distinct os) (hsound : f.Sound) (id : TaskId) :
    ((dispatches id os).map Dispatched.attempt).Nodup := by
  have hclaims : (dispatches id os).Pairwise fun d d' => d.claim ≠ d'.claim :=
    (List.pairwise_map.mp h.once).sublist List.filter_sublist
  refine List.pairwise_map.mpr (hclaims.imp_of_mem ?_)
  intro d d' hd hd' hne
  obtain ⟨hd, hid⟩ := mem_dispatches.mp hd
  obtain ⟨hd', hid'⟩ := mem_dispatches.mp hd'
  exact h.attempts_ne hsound hd hd' (hid.trans hid'.symm) hne

/-- Different integers between one and `n` are at most `n`. -/
theorem length_le_of_nodup {as : List Int} (hn : as.Nodup) {n : Int}
    (hbounds : ∀ a ∈ as, 1 ≤ a ∧ a ≤ n) (hpos : 0 ≤ n) : (as.length : Int) ≤ n := by
  have hsub : as.toFinset ⊆ Finset.Icc 1 n := by
    intro a ha
    exact Finset.mem_Icc.mpr (hbounds a (List.mem_toFinset.mp ha))
  have hcard := Finset.card_le_card hsub
  rw [List.toFinset_card_of_nodup hn, Int.card_Icc] at hcard
  omega

/-- The maximum of a dispatched task is that of its row. -/
theorem Fleet.Distinct.row (h : f.Distinct os) (hsound : f.Sound) {d : Dispatched}
    (hd : d ∈ allDispatches os) : ∃ r, f.server.db.table.get d.task.id = some r ∧
      1 ≤ d.attempt ∧ d.attempt ≤ r.maxAttempts.val := by
  obtain ⟨o, ho, -, k, hk, -, -, hpos, hle⟩ := h.entry hsound hd
  obtain ⟨ps, qs, hshown⟩ := List.append_of_mem ho
  have hsplit : history d.task.id f.server.shown =
      history d.task.id ps ++ k :: history d.task.id qs := by
    rw [hshown, history_append, history_cons _ o, hk]
    rfl
  obtain ⟨r, hr, hpath⟩ := hsound.served.path_after hsplit
  have hmax : r.maxAttempts.val = k.change.new.maxAttempts.val := hpath.maxAttempts_eq
  exact ⟨r, hr, hpos, hmax ▸ hle⟩

/-- **A task is dispatched at most as often as its maximum says**, each time as another attempt
between one and the maximum. The attempts grow in the order in which the claims have committed,
which is the order of the dispatches of each engine. -/
theorem retry_budget (h : Fleets os f) (id : TaskId) :
    (∀ d ∈ dispatches id os, ∃ r, f.server.db.table.get id = some r ∧
      ((dispatches id os).length : Int) ≤ r.maxAttempts.val ∧
      1 ≤ d.attempt ∧ d.attempt ≤ r.maxAttempts.val) ∧
    ((dispatches id os).map Dispatched.attempt).Nodup ∧
    (∀ d ∈ dispatches id os, ∀ d' ∈ dispatches id os,
      d.attempt < d'.attempt ↔ CommittedBefore f.server.shown d.claim d'.claim) ∧
    (dispatches id os).Pairwise fun d d' => d.worker = d'.worker → d.attempt < d'.attempt := by
  have hsound := Fleets.sound h
  have hdistinct := Fleets.distinct h
  have hnodup := hdistinct.attempts_nodup hsound id
  refine ⟨?_, hnodup, ?_, ?_⟩
  · intro d hd
    obtain ⟨hd', rfl⟩ := mem_dispatches.mp hd
    obtain ⟨r, hr, hpos, hle⟩ := hdistinct.row hsound hd'
    refine ⟨r, hr, ?_, hpos, hle⟩
    rw [← List.length_map Dispatched.attempt]
    -- distinct attempts between one and the maximum
    refine length_le_of_nodup hnodup ?_ (by omega)
    intro a ha
    obtain ⟨e, he, rfl⟩ := List.mem_map.mp ha
    obtain ⟨he, hid⟩ := mem_dispatches.mp he
    obtain ⟨r', hr', hbounds⟩ := hdistinct.row hsound he
    rw [hid, hr] at hr'
    obtain rfl := Option.some.inj hr'
    exact hbounds
  · intro d hd d' hd'
    obtain ⟨hd, hid⟩ := mem_dispatches.mp hd
    obtain ⟨hd', hid'⟩ := mem_dispatches.mp hd'
    exact hdistinct.attempt_lt_iff hsound hd hd' (hid.trans hid'.symm)
  · apply (hdistinct.ordered.sublist List.filter_sublist).imp_of_mem
    intro d d' hd hd' hbefore hw
    obtain ⟨hd, hid⟩ := mem_dispatches.mp hd
    obtain ⟨hd', hid'⟩ := mem_dispatches.mp hd'
    exact hdistinct.attempt_lt hsound hd hd' (hid.trans hid'.symm) (hbefore hw)

end Budget

/-! ## Two engines -/

/-- A lease of a thousand seconds. -/
def sampleConfig : WorkerConfig := { WorkerConfig.default with leaseDuration := 1000000000 }

def startMove (w : WorkerId) : Fleet.Event := .start w false sampleQueue sampleConfig ["email"]

/-- A call served without interruption, in `n` statements. -/
def serveMoves (sid : ℕ) (c : Call) (now : Timestamp) (n : ℕ) : List Fleet.Event :=
  .call c ⟨now⟩ :: (List.replicate n (.database (.exec sid .all)) ++ [.database (.finish sid)])

/-- Where the events of a fleet lead. -/
def Fleet.after (es : List Fleet.Event) : Fleet := ((run Fleet.step .idle es).getD (.idle, [])).1

/-- What the events of a fleet show. -/
def Fleet.outputs (es : List Fleet.Event) : List FleetOutput :=
  ((run Fleet.step .idle es).getD (.idle, [])).2

theorem Fleets.of_moves (es : List Fleet.Event) (h : (run Fleet.step .idle es).isSome) :
    Fleets (Fleet.outputs es) (Fleet.after es) := by
  have hr : Fleets _ _ := Reaches.of_isSome (Admitted.of_forall (fun _ _ _ => trivial) es [] _) h
  obtain ⟨⟨f, os⟩, he⟩ := Option.isSome_iff_exists.mp h
  simpa [Fleet.outputs, Fleet.after, he] using hr

/-- An engine claims a task, and is slow to hear of it; the lease expires, the sweeper recovers the
task, and a second engine claims and dispatches it first. -/
def reclaimMoves : List Fleet.Event :=
  serveMoves 0 (callOf (.save (sampleTask .default))) 0 1 ++
  [startMove ⟨7⟩, startMove ⟨8⟩,
    .worker ⟨7⟩ (.tick ⟨10⟩), .database (.exec 1 .all), .database (.finish 1)] ++
  serveMoves 2 (callOf .recoverZombieTasks) 2000000 2 ++
  [.worker ⟨8⟩ (.tick ⟨2000010⟩), .database (.exec 3 .all), .database (.finish 3),
    .worker ⟨8⟩ (.claimed false ⟨0⟩), .worker ⟨7⟩ (.claimed false ⟨0⟩)]

/-- The attempts the events of a fleet dispatch. -/
def attemptsOf (os : List FleetOutput) : List (WorkerId × Int) :=
  (allDispatches os).map fun d => (d.worker, d.attempt)

theorem fleets_reclaim : Fleets (Fleet.outputs reclaimMoves) (Fleet.after reclaimMoves) :=
  Fleets.of_moves reclaimMoves (by decide +kernel)

/-- **The second attempt is dispatched before the first.** -/
theorem dispatched_out_of_order : ∃ os f, Fleets os f ∧
    attemptsOf os = [(⟨8⟩, 2), (⟨7⟩, 1)] ∧
    ¬ ((dispatches (sampleTask .default).id os).map Dispatched.attempt).Pairwise (· < ·) :=
  ⟨_, _, fleets_reclaim, by decide +kernel, by decide +kernel⟩

/-- In the sample, no attempt is dispatched twice. -/
theorem reclaim_budget : attemptsOf (Fleet.outputs reclaimMoves) = [(⟨8⟩, 2), (⟨7⟩, 1)] ∧
    ((dispatches (sampleTask .default).id (Fleet.outputs reclaimMoves)).map
      Dispatched.attempt).Nodup :=
  ⟨by decide +kernel, (retry_budget fleets_reclaim (sampleTask .default).id).2.1⟩

end IronDefer
