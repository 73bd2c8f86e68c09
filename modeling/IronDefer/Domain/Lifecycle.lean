import IronDefer.Domain.Task

/-!
# The life of a task

What the queue does with one task, without rows, clocks and transactions: the task is submitted,
executed by workers one attempt at a time, and ends as completed, failed or cancelled. A claim
begins an attempt; it ends when the task leaves `running`.

## Main definitions

* `Life`: the status of a task, its attempts and their maximum, and who executes it
* `Action`: what can happen to a task
* `Life.Step`, `Life.Path`: one action, and the actions of a whole life
* `Moves`: the status changes an action can make

## Main results

* `Step.moves`: every action is one of the ten moves or keeps the status
* `Path.reopened`: from execution back to pending there is a retry, a release, or a suspension
  followed by a signal
* `Path.held`: while a task runs and no new claim is made, the claim stands
* `Path.attempts_lt_of_claim`: a claim raises the attempts, which never fall
* `Step.claimsLeft_le`, `Step.movesLeft_le`: a life runs out, but for releases and signals
-/

namespace IronDefer

/-- What the queue keeps of a task. The holder executes it while it runs. -/
structure Life where
  status : TaskStatus
  attempts : Int
  maxAttempts : Int
  holder : Option WorkerId
  deriving DecidableEq, Repr

/-- What can happen to a task. `touch` is a write that concerns none of this. -/
inductive Action where
  | submit
  | claim (worker : WorkerId)
  | complete
  | retry
  | exhaust
  | release
  | suspend
  | signal
  | expire
  | cancel
  | touch
  deriving DecidableEq, Repr

/-- What an action adds to the attempts. -/
def Action.counts : Action → Int
  | claim _ | release => 1
  | _ => 0

/-- The action begins an attempt. -/
def Action.isClaim : Action → Bool
  | claim _ => true
  | _ => false

theorem Action.counts_nonneg (a : Action) : 0 ≤ a.counts := by
  cases a <;> simp [counts]

/-- The status changes of a task, from its submission on. -/
inductive Moves : Option TaskStatus → TaskStatus → Prop
  | submit : Moves none .pending
  | claim : Moves (some .pending) .running
  | cancelPending : Moves (some .pending) .cancelled
  | complete : Moves (some .running) .completed
  | reopen : Moves (some .running) .pending
  | fail : Moves (some .running) .failed
  | suspend : Moves (some .running) .suspended
  | signal : Moves (some .suspended) .pending
  | expire : Moves (some .suspended) .failed
  | cancelSuspended : Moves (some .suspended) .cancelled

theorem Moves.not_isTerminal {s s' : TaskStatus} (h : Moves (some s) s') :
    s.isTerminal = false := by
  cases h <;> rfl

namespace Life

/-- One action. -/
inductive Step : Option Life → Action → Life → Prop
  | submit {l} : l.status = .pending → l.holder = none → Step none .submit l
  | claim {l w} : l.status = .pending →
      Step (some l) (.claim w)
        { l with status := .running, attempts := l.attempts + 1, holder := some w }
  | complete {l} : l.status = .running →
      Step (some l) .complete { l with status := .completed, holder := none }
  | retry {l} : l.status = .running → l.attempts < l.maxAttempts →
      Step (some l) .retry { l with status := .pending, holder := none }
  | exhaust {l} : l.status = .running → l.maxAttempts ≤ l.attempts →
      Step (some l) .exhaust { l with status := .failed, holder := none }
  | release {l} : l.status = .running →
      Step (some l) .release
        { l with status := .pending, attempts := l.attempts + 1, holder := none }
  | suspend {l} : l.status = .running →
      Step (some l) .suspend { l with status := .suspended, holder := none }
  | signal {l} : l.status = .suspended →
      Step (some l) .signal { l with status := .pending, holder := none }
  | expire {l} : l.status = .suspended →
      Step (some l) .expire { l with status := .failed, holder := none }
  | cancel {l} : l.status = .pending ∨ l.status = .suspended →
      Step (some l) .cancel { l with status := .cancelled, holder := none }
  | touch {l} : Step (some l) .touch l

/-- The actions of a life, each with what it leaves. -/
def Path : Option Life → List (Action × Life) → Option Life → Prop
  | o, [], o' => o = o'
  | o, (a, l) :: p, o' => Step o a l ∧ Path (some l) p o'

@[simp] theorem path_nil {o o' : Option Life} : Path o [] o' ↔ o = o' := Iff.rfl

@[simp] theorem path_cons {o o' : Option Life} {a : Action} {l : Life} {p : List (Action × Life)} :
    Path o ((a, l) :: p) o' ↔ Step o a l ∧ Path (some l) p o' := Iff.rfl

/-- Every action is one of the moves, or keeps the status. -/
theorem Step.moves {o : Option Life} {a : Action} {l : Life} (h : Step o a l) :
    o.map Life.status = some l.status ∨ Moves (o.map Life.status) l.status := by
  cases h with
  | touch => exact .inl rfl
  | submit hs => rw [hs]; exact .inr .submit
  | claim hs => right; simp only [Option.map_some, hs]; exact .claim
  | complete hs => right; simp only [Option.map_some, hs]; exact .complete
  | retry hs => right; simp only [Option.map_some, hs]; exact .reopen
  | exhaust hs => right; simp only [Option.map_some, hs]; exact .fail
  | release hs => right; simp only [Option.map_some, hs]; exact .reopen
  | suspend hs => right; simp only [Option.map_some, hs]; exact .suspend
  | signal hs => right; simp only [Option.map_some, hs]; exact .signal
  | expire hs => right; simp only [Option.map_some, hs]; exact .expire
  | cancel hs =>
    right
    rcases hs with hs | hs <;> simp only [Option.map_some, hs]
    · exact .cancelPending
    · exact .cancelSuspended

/-- An action adds what it counts to the attempts, and leaves their maximum alone. -/
theorem Step.attempts_eq {l l' : Life} {a : Action} (h : Step (some l) a l') :
    l'.attempts = l.attempts + a.counts ∧ l'.maxAttempts = l.maxAttempts := by
  cases h <;> simp [Action.counts]

/-- Every action but `touch` changes the status. -/
theorem Step.status_ne {l l' : Life} {a : Action} (h : Step (some l) a l') (ha : a ≠ .touch) :
    l'.status ≠ l.status := by
  cases h with
  | touch => exact absurd rfl ha
  | cancel hs => rcases hs with hs | hs <;> simp [hs]
  | _ hs => simp [hs]

/-- The attempts never fall. -/
theorem Step.attempts_le {l l' : Life} {a : Action} (h : Step (some l) a l') :
    l.attempts ≤ l'.attempts := by
  rw [h.attempts_eq.1]
  exact Int.le_add_of_nonneg_right a.counts_nonneg

theorem Path.maxAttempts_eq {l l' : Life} {p : List (Action × Life)}
    (h : Path (some l) p (some l')) : l'.maxAttempts = l.maxAttempts := by
  induction p generalizing l with
  | nil => cases h; rfl
  | cons x p ih => exact (ih h.2).trans h.1.attempts_eq.2

theorem Path.attempts_le {l l' : Life} {p : List (Action × Life)} (h : Path (some l) p (some l')) :
    l.attempts ≤ l'.attempts := by
  induction p generalizing l with
  | nil => cases h; exact Int.le_refl _
  | cons x p ih => exact Int.le_trans h.1.attempts_le (ih h.2)

/-- A claim on the way raises the attempts. -/
theorem Path.attempts_lt_of_claim {l l' : Life} {p : List (Action × Life)} {w : WorkerId}
    (h : Path (some l) p (some l')) (hc : .claim w ∈ p.map Prod.fst) :
    l.attempts < l'.attempts := by
  induction p generalizing l with
  | nil => cases hc
  | cons x p ih =>
    obtain ⟨a, m⟩ := x
    obtain ⟨hs, hp⟩ := h
    rcases List.mem_cons.mp hc with rfl | hc
    · cases hs with
      | claim => exact Int.lt_of_lt_of_le (Int.lt_succ _) hp.attempts_le
    · exact Int.lt_of_le_of_lt hs.attempts_le (ih hp hc)

/-- A finished task stays as it is. -/
theorem Path.terminal {l l' : Life} {p : List (Action × Life)} (h : Path (some l) p (some l'))
    (ht : l.status.isTerminal = true) : l'.status = l.status := by
  induction p generalizing l with
  | nil => cases h; rfl
  | cons x p ih =>
    obtain ⟨a, m⟩ := x
    obtain ⟨hs, hp⟩ := h
    cases hs with
    | touch => exact ih hp ht
    | cancel hs => rcases hs with hs | hs <;> simp [hs, TaskStatus.isTerminal] at ht
    | _ hs => simp [hs, TaskStatus.isTerminal] at ht

/-- A suspended task becomes pending by a signal only. -/
theorem Path.signalled {l l' : Life} {p : List (Action × Life)} (h : Path (some l) p (some l'))
    (hs : l.status = .suspended) (hp : l'.status = .pending) : .signal ∈ p.map Prod.fst := by
  induction p generalizing l with
  | nil => cases h; simp [hs] at hp
  | cons x p ih =>
    obtain ⟨a, m⟩ := x
    obtain ⟨hstep, hpath⟩ := h
    cases hstep with
    | touch => exact List.mem_cons_of_mem _ (ih hpath hs)
    | signal => exact List.mem_cons_self
    | expire => simp [hpath.terminal rfl] at hp
    | cancel => simp [hpath.terminal rfl] at hp
    | _ h => simp [hs] at h

/-- A task becomes suspended by a suspension only. -/
theorem Path.suspended {l l' : Life} {p : List (Action × Life)} (h : Path (some l) p (some l'))
    (hs : l.status ≠ .suspended) (hs' : l'.status = .suspended) : .suspend ∈ p.map Prod.fst := by
  induction p generalizing l with
  | nil =>
    cases h
    exact absurd hs' hs
  | cons x p ih =>
    obtain ⟨a, m⟩ := x
    obtain ⟨hstep, hpath⟩ := h
    cases hstep with
    | suspend => exact List.mem_cons_self
    | touch => exact List.mem_cons_of_mem _ (ih hpath hs)
    | _ => exact List.mem_cons_of_mem _ (ih hpath (by simp))

/-- **A running task becomes pending by a retry, a release, or a suspension followed by a
signal.** -/
theorem Path.reopened {l l' : Life} {p : List (Action × Life)} (h : Path (some l) p (some l'))
    (hs : l.status = .running) (hp : l'.status = .pending) :
    .retry ∈ p.map Prod.fst ∨ .release ∈ p.map Prod.fst ∨
      [.suspend, .signal].Sublist (p.map Prod.fst) := by
  induction p generalizing l with
  | nil => cases h; simp [hs] at hp
  | cons x p ih =>
    obtain ⟨a, m⟩ := x
    obtain ⟨hstep, hpath⟩ := h
    cases hstep with
    | touch =>
      exact (ih hpath hs).imp (List.mem_cons_of_mem _)
        (Or.imp (List.mem_cons_of_mem _) (List.Sublist.cons _))
    | retry => exact .inl List.mem_cons_self
    | release => exact .inr (.inl List.mem_cons_self)
    | suspend =>
      exact .inr (.inr (.cons_cons _ (List.singleton_sublist.mpr (hpath.signalled rfl hp))))
    | complete => simp [hpath.terminal rfl] at hp
    | exhaust => simp [hpath.terminal rfl] at hp
    | cancel h => rcases h with h | h <;> simp [hs] at h
    | _ h => simp [hs] at h

/-- A task that does not run is not running later, where no new claim is made. -/
theorem Path.not_running {l l' : Life} {p : List (Action × Life)} (h : Path (some l) p (some l'))
    (hs : l.status ≠ .running) (hc : ∀ w, .claim w ∉ p.map Prod.fst) : l'.status ≠ .running := by
  induction p generalizing l with
  | nil => cases h; exact hs
  | cons x p ih =>
    obtain ⟨a, m⟩ := x
    obtain ⟨hstep, hpath⟩ := h
    have hc' : ∀ w, .claim w ∉ p.map Prod.fst := fun w hw => hc w (List.mem_cons_of_mem _ hw)
    cases hstep with
    | claim => exact absurd List.mem_cons_self (hc _)
    | touch => exact ih hpath hs hc'
    | _ => exact ih hpath (by simp) hc'

/-- **While a task runs and no new claim is made, the claim stands.** -/
theorem Path.held {l l' : Life} {p : List (Action × Life)} (h : Path (some l) p (some l'))
    (hs : l'.status = .running) (hc : ∀ w, .claim w ∉ p.map Prod.fst) : l' = l := by
  induction p generalizing l with
  | nil => cases h; rfl
  | cons x p ih =>
    obtain ⟨a, m⟩ := x
    obtain ⟨hstep, hpath⟩ := h
    have hc' : ∀ w, .claim w ∉ p.map Prod.fst := fun w hw => hc w (List.mem_cons_of_mem _ hw)
    cases hstep with
    | claim => exact absurd List.mem_cons_self (hc _)
    | touch => exact ih hpath hc'
    | _ => exact absurd hs (hpath.not_running (by simp) hc')

/-! ## What is left of a life -/

/-- The attempts that are left. -/
def rest (l : Life) : ℕ := (l.maxAttempts - l.attempts).toNat

/-- The claims a life has left, where nobody releases or signals the task. -/
def claimsLeft (l : Life) : ℕ :=
  match l.status with
  | .pending => max 1 l.rest
  | .running | .suspended => l.rest
  | .completed | .failed | .cancelled => 0

/-- The status changes a life has left, where nobody releases or signals the task. -/
def movesLeft (l : Life) : ℕ :=
  match l.status with
  | .pending => max 3 (2 * l.rest + 1)
  | .running => 2 * l.rest + 2
  | .suspended => 2 * l.rest + 1
  | .completed | .failed | .cancelled => 0

/-- A life has a status change left, unless it is finished. -/
theorem movesLeft_eq_zero_iff {l : Life} : l.movesLeft = 0 ↔ l.status.isTerminal = true := by
  unfold movesLeft
  cases l.status with
  | pending => simp [TaskStatus.isTerminal]
  | running => simp [TaskStatus.isTerminal]
  | suspended => simp [TaskStatus.isTerminal]
  | completed => simp [TaskStatus.isTerminal]
  | failed => simp [TaskStatus.isTerminal]
  | cancelled => simp [TaskStatus.isTerminal]

/-- What a release and a signal are charged with, that open a task again whether or not there are
attempts left. -/
def chargeOf (release signal : ℕ) (a : Action) : ℕ :=
  (if a = .release then release else 0) + if a = .signal then signal else 0

/-- **An action uses up a claim**, where it is one, but for a release and a signal. -/
theorem Step.claimsLeft_le {l l' : Life} {a : Action} (h : Step (some l) a l') :
    l'.claimsLeft + (if a.isClaim then 1 else 0) ≤ l.claimsLeft + chargeOf 1 1 a := by
  cases h with
  | touch => exact Nat.le_refl _
  | complete | exhaust | expire | cancel => simp [claimsLeft, Action.isClaim]
  | claim hs | retry hs | release hs | suspend hs | signal hs =>
    simp only [claimsLeft, hs, rest, chargeOf, Action.isClaim, reduceCtorEq, if_true, if_false]
    omega

/-- **An action uses up a status change**, where it is one, but for a release and a signal. -/
theorem Step.movesLeft_le {l l' : Life} {a : Action} (h : Step (some l) a l') :
    l'.movesLeft + (if a = .touch then 0 else 1) ≤ l.movesLeft + chargeOf 2 3 a := by
  cases h with
  | touch => exact Nat.le_refl _
  | cancel hs =>
    -- what it leaves is less than any task has left that can be cancelled
    have hpos : 1 ≤ l.movesLeft := by
      rcases hs with hs | hs
      · simp only [movesLeft, hs]
        omega
      · simp only [movesLeft, hs]
        omega
    exact Nat.le_add_right_of_le ((Nat.zero_add _).trans_le hpos)
  | _ hs =>
    simp only [movesLeft, hs, rest, chargeOf, reduceCtorEq, if_true, if_false]
    omega

end Life

end IronDefer
