import IronDefer.Domain.Lifecycle
import IronDefer.RowStore.Refinement

/-!
# The queue

What the queue is for, without rows, statements and transactions: it keeps jobs by their ids, and
serves one request at a time. A request moves some jobs at once, each by one action of its life, and
only by the actions it asks for. Who asks for one job moves this job or none, and a claim moves one
job of its queue at most.

## Main definitions

* `Job`, `Jobs`: a job with its queue, and the jobs that there are
* `Demand`, `Demand.Asks`: what is asked of the queue, and the actions a request asks for
* `Jobs.Serves`: a request is served, and has moved some jobs
* `lastClaim`: the worker whose claim was the last to move a job

## Main results

* `Jobs.Serves.keeps`: no job vanishes, or leaves its queue
* `held_by_last_claim`: **a running job is held by the worker whose claim was the last to move it**
-/

namespace IronDefer

open RowStore

/-- A job, with the queue it waits in. -/
structure Job where
  queue : String
  life : Life
  deriving DecidableEq, Repr

/-- The jobs that there are. -/
abbrev Jobs := TaskId → Option Job

/-- What is asked of the queue. `note` asks for nothing that concerns the lives of the jobs. -/
inductive Demand where
  | submit
  | claim (queue : String) (worker : WorkerId)
  | complete (id : TaskId)
  | fail (id : TaskId)
  | suspend (id : TaskId)
  | signal (id : TaskId)
  | giveBack (id : TaskId)
  | giveBackAll (worker : WorkerId)
  | recover
  | cancel (id : TaskId)
  | expire
  | note
  deriving DecidableEq, Repr

/-- The request asks for an action on a job. -/
inductive Demand.Asks : Demand → TaskId → Option Job → Action → Prop
  | submit {id} : Asks submit id none .submit
  | claim {id job w} : Asks (claim job.queue w) id (some job) (.claim w)
  | complete {id job} : Asks (complete id) id (some job) .complete
  | retry {id job} : Asks (fail id) id (some job) .retry
  | exhaust {id job} : Asks (fail id) id (some job) .exhaust
  | suspend {id job} : Asks (suspend id) id (some job) .suspend
  | signal {id job} : Asks (signal id) id (some job) .signal
  | giveBack {id job} : Asks (giveBack id) id (some job) .release
  | giveBackAll {id job w} : job.life.holder = some w →
      Asks (giveBackAll w) id (some job) .release
  | recoverRetry {id job} : Asks recover id (some job) .retry
  | recoverExhaust {id job} : Asks recover id (some job) .exhaust
  | cancel {id job} : Asks (cancel id) id (some job) .cancel
  | expire {id job} : Asks expire id (some job) .expire
  | note {id job} : Asks note id (some job) .touch

theorem Demand.Asks.eq_claim {r : Demand} {id : TaskId} {o : Option Job} {w : WorkerId}
    (h : r.Asks id o (.claim w)) : ∃ queue, r = .claim queue w := by
  cases h
  exact ⟨_, rfl⟩

theorem Demand.Asks.eq_note {r : Demand} {id : TaskId} {o : Option Job}
    (h : r.Asks id o .touch) : r = .note := by
  cases h
  rfl

/-- The requests that move one job at most. -/
def Demand.isSingle : Demand → Bool
  | claim .. | complete _ | fail _ | suspend _ | signal _ | giveBack _ | cancel _ => true
  | submit | giveBackAll _ | recover | expire | note => false

/-- What has been asked, and the jobs it has moved. -/
structure Serving where
  demand : Demand
  moved : List (TaskId × Job)
  deriving DecidableEq, Repr

/-- The queue serves a request: the jobs moved are moved by actions asked for, from where they were,
and the others are left alone. -/
structure Jobs.Serves (jobs : Jobs) (s : Serving) (jobs' : Jobs) : Prop where
  asked : ∀ x ∈ s.moved, ∃ a, s.demand.Asks x.1 (jobs x.1) a ∧
    Life.Step ((jobs x.1).map Job.life) a x.2.life
  stays : ∀ x ∈ s.moved, ∀ job, jobs x.1 = some job → x.2.queue = job.queue
  moved : ∀ x ∈ s.moved, jobs' x.1 = some x.2
  others : ∀ id, (∀ x ∈ s.moved, x.1 ≠ id) → jobs' id = jobs id
  single : s.demand.isSingle = true → s.moved.length ≤ 1

/-- The worker that has claimed a job by what has been served. -/
def Serving.claims (id : TaskId) (s : Serving) : Option WorkerId :=
  match s.demand with
  | .claim _ w => if id ∈ s.moved.map Prod.fst then some w else none
  | _ => none

/-- The worker whose claim was the last to move a job. -/
def lastClaim (id : TaskId) (ss : List Serving) : Option WorkerId := lastOf (Serving.claims id) ss

section Steps

variable {jobs jobs' : Jobs} {s : Serving} {id : TaskId}

/-- A job is moved, or it is where it was. -/
theorem Jobs.Serves.cases (h : jobs.Serves s jobs') (id : TaskId) :
    (∃ job, (id, job) ∈ s.moved ∧ jobs' id = some job) ∨
      id ∉ s.moved.map Prod.fst ∧ jobs' id = jobs id := by
  by_cases hmem : id ∈ s.moved.map Prod.fst
  · obtain ⟨⟨_, job⟩, hx, rfl⟩ := List.mem_map.mp hmem
    exact .inl ⟨job, hx, h.moved _ hx⟩
  · refine .inr ⟨hmem, h.others id fun x hx heq => hmem ?_⟩
    exact List.mem_map.mpr ⟨x, hx, heq⟩

/-- **No job vanishes**, leaves its queue or changes the maximum of its attempts. -/
theorem Jobs.Serves.keeps (h : jobs.Serves s jobs') {job : Job} (hjob : jobs id = some job) :
    ∃ job', jobs' id = some job' ∧ job'.queue = job.queue ∧
      job'.life.maxAttempts = job.life.maxAttempts := by
  rcases h.cases id with ⟨job', hmem, hjob'⟩ | ⟨-, heq⟩
  · obtain ⟨a, -, hstep⟩ := h.asked _ hmem
    rw [hjob] at hstep
    exact ⟨job', hjob', h.stays _ hmem job hjob, hstep.attempts_eq.2⟩
  · exact ⟨job, heq.trans hjob, rfl, rfl⟩

/-- Nothing but a touch happens to a finished job. -/
theorem Life.Step.eq_of_terminal {l l' : Life} {a : Action} (h : Step (some l) a l')
    (hl : l.status.isTerminal = true) : l' = l := by
  cases h with
  | touch => rfl
  | cancel hs =>
    rcases hs with hs | hs
    · rw [hs] at hl
      cases hl
    · rw [hs] at hl
      cases hl
  | _ hs =>
    rw [hs] at hl
    cases hl

/-- A finished job stays as it is, but for what does not concern its life. -/
theorem Jobs.Serves.finished (h : jobs.Serves s jobs') {job : Job} (hjob : jobs id = some job)
    (hfinished : job.life.status.isTerminal = true) :
    ∃ job', jobs' id = some job' ∧ job'.life = job.life := by
  rcases h.cases id with ⟨job', hmem, hjob'⟩ | ⟨-, heq⟩
  · obtain ⟨a, -, hstep⟩ := h.asked _ hmem
    rw [hjob] at hstep
    exact ⟨job', hjob', hstep.eq_of_terminal hfinished⟩
  · exact ⟨job, heq.trans hjob, rfl⟩

/-- An action after which a job runs is a claim, or concerns nothing of its life. -/
theorem Life.Step.of_running {o : Option Life} {a : Action} {l : Life} (h : Step o a l)
    (hl : l.status = .running) :
    (∃ w, a = .claim w ∧ l.holder = some w) ∨ a = .touch ∧ o = some l := by
  cases h with
  | claim => exact .inl ⟨_, rfl, rfl⟩
  | touch => exact .inr ⟨rfl, rfl⟩
  | submit hs => rw [hs] at hl; cases hl
  | _ => cases hl

/-- What a request does to the holder of a job: only a claim makes it run. -/
theorem Jobs.Serves.holder (h : jobs.Serves s jobs') {job' : Job} (hjob' : jobs' id = some job')
    (hrunning : job'.life.status = .running) :
    (∃ w, s.claims id = some w ∧ job'.life.holder = some w) ∨
      s.claims id = none ∧ (jobs id).map Job.life = some job'.life := by
  rcases h.cases id with ⟨job, hmem, hmoved⟩ | ⟨hmem, heq⟩
  · obtain rfl : job = job' := Option.some.inj (hmoved.symm.trans hjob')
    obtain ⟨a, hasks, hstep⟩ := h.asked _ hmem
    have hin : id ∈ s.moved.map Prod.fst := List.mem_map.mpr ⟨_, hmem, rfl⟩
    rcases hstep.of_running hrunning with ⟨w, rfl, hholder⟩ | ⟨rfl, hold⟩
    · obtain ⟨queue, hr⟩ := hasks.eq_claim
      refine .inl ⟨w, ?_, hholder⟩
      rw [Serving.claims, hr]
      exact if_pos hin
    · refine .inr ⟨?_, hold⟩
      rw [Serving.claims, hasks.eq_note]
  · refine .inr ⟨?_, by rw [← heq, hjob', Option.map_some]⟩
    rw [Serving.claims]
    split
    · exact if_neg hmem
    · rfl

end Steps

/-- **A running job is held by the worker whose claim was the last to move it**, on every path of the
queue from where there are no jobs. -/
theorem held_by_last_claim {ss : List Serving} {jobs : Jobs}
    (h : Traced Jobs.Serves (fun _ => none) ss jobs) {id : TaskId} {job : Job}
    (hjob : jobs id = some job) (hrunning : job.life.status = .running) :
    ∃ w, job.life.holder = some w ∧ lastClaim id ss = some w := by
  refine h.induct (P := fun ss jobs => ∀ job, jobs id = some job → job.life.status = .running →
    ∃ w, job.life.holder = some w ∧ lastClaim id ss = some w) (fun job hjob => by cases hjob) ?_
    job hjob hrunning
  intro ss jobs s jobs' _ ih hserves job' hjob' hrunning
  have hlast : lastClaim id (ss ++ [s]) = (s.claims id).or (lastClaim id ss) := by
    rw [lastClaim, lastOf_append, lastOf_singleton]
    rfl
  rcases hserves.holder hjob' hrunning with ⟨w, hclaims, hholder⟩ | ⟨hclaims, hlife⟩
  · exact ⟨w, hholder, by rw [hlast, hclaims]; rfl⟩
  · obtain ⟨job, hjob, heq⟩ := Option.map_eq_some_iff.mp hlife
    obtain ⟨w, hholder, hclaim⟩ := ih job hjob (heq ▸ hrunning)
    exact ⟨w, heq ▸ hholder, by rw [hlast, hclaims]; exact hclaim⟩

end IronDefer
