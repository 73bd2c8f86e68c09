import IronDefer.RowStore.Program

/-!
# Transactions under row locks

A database holds one committed table, one committed append-only log and the open transactions.
A transaction executes its program statement by statement. A statement sees the committed rows
with the transaction's own writes over them; it waits (is not enabled) while a row it would write
is held by another transaction, and it is executed on the versions current when it gets there.
A row written is held until the transaction ends. Committing publishes all writes and log rows at
once, a rollback publishes nothing. The id of a log row is drawn when the row is appended, not
when it is committed.

## Main definitions

* `Session`, `Db`: an open transaction, and the database
* `Db.view`, `Db.held`, `Db.free`: what a transaction sees, and what the others hold
* `Event`, `Output`, `Db.step`: the steps of the database
* `Db.Step`: the same steps as a relation, one case for each way to go

## Main results

* `Db.step_iff`: the step function takes exactly the steps of the relation
-/

namespace RowStore

variable {K V A S B E Err O R : Type} [DecidableEq K] {Res : S → Type} {key : V → K}

/-- An open transaction: the call it serves, its data, the statements left, the row versions it
has written and the log rows it has appended. -/
structure Session (S : Type) (Res : S → Type) (O B V A R : Type) where
  id : ℕ
  op : O
  began : B
  rest : Program S Res (Finish R)
  news : List V
  logs : List (ℕ × A)

/-- The committed table and log, the next log id, and the open transactions. -/
structure Db (key : V → K) (A S : Type) (Res : S → Type) (O B R : Type) where
  table : Table key
  log : List (ℕ × A)
  nextId : ℕ
  sessions : Table (Session.id : Session S Res O B V A R → ℕ)

/-- A step of the database: a transaction begins, executes its next statement, fails, or ends. -/
inductive Event (O B E : Type) where
  | start (sid : ℕ) (op : O) (b : B)
  | exec (sid : ℕ) (e : E)
  | fault (sid : ℕ)
  | finish (sid : ℕ)

/-- What a step shows: nothing, a transaction that failed, one that rolled back and replied, or
one that committed and replied. -/
inductive Output (O B V A R Err : Type) where
  | silent
  | failed (sid : ℕ) (op : O) (err : Option Err)
  | returned (sid : ℕ) (op : O) (b : B) (r : R)
  | committed (sid : ℕ) (op : O) (b : B) (changes : List (Change V)) (logs : List (ℕ × A)) (r : R)
  deriving DecidableEq, Repr

/-- Draw ids for log rows, from `n` on. -/
def numbered (n : ℕ) : List A → List (ℕ × A)
  | [] => []
  | a :: as => (n, a) :: numbered (n + 1) as

@[simp] theorem numbered_nil (n : ℕ) : numbered n ([] : List A) = [] := rfl

@[simp] theorem map_snd_numbered (n : ℕ) (as : List A) : (numbered n as).map Prod.snd = as := by
  induction as generalizing n with
  | nil => rfl
  | cons a as ih => simp [numbered, ih]

theorem le_of_mem_numbered {n : ℕ} {as : List A} {x : ℕ × A} (h : x ∈ numbered n as) :
    n ≤ x.1 ∧ x.1 < n + as.length := by
  induction as generalizing n with
  | nil => cases h
  | cons a as ih =>
    rcases List.mem_cons.mp h with rfl | h
    · simp
    · have hbounds := ih h
      simp only [List.length_cons]
      omega

theorem pairwise_numbered (n : ℕ) (as : List A) :
    (numbered n as).Pairwise fun x y => x.1 < y.1 := by
  induction as generalizing n with
  | nil => exact .nil
  | cons a as ih =>
    exact List.pairwise_cons.mpr ⟨fun x hx => (le_of_mem_numbered hx).1, ih (n + 1)⟩

namespace Session

/-- The versions a transaction holds: the last one it has written of each row. -/
def own (key : V → K) (s : Session S Res O B V A R) : Table key := (∅ : Table key).putAll s.news

end Session

namespace Output

/-- The row changes a step publishes. -/
def changes : Output O B V A R Err → List (Change V)
  | .committed _ _ _ cs _ _ => cs
  | _ => []

/-- The log rows a step publishes. -/
def logs : Output O B V A R Err → List (ℕ × A)
  | .committed _ _ _ _ ls _ => ls
  | _ => []

/-- The reply a step gives. -/
def reply : Output O B V A R Err → Option R
  | .returned _ _ _ r => some r
  | .committed _ _ _ _ _ r => some r
  | _ => none

/-- The call whose transaction a step ends. -/
def op : Output O B V A R Err → Option O
  | .silent => none
  | .failed _ op _ => some op
  | .returned _ op _ _ => some op
  | .committed _ op _ _ _ _ => some op

/-- What the transaction a step answers has begun with. -/
def began : Output O B V A R Err → Option B
  | .returned _ _ b _ => some b
  | .committed _ _ b _ _ _ => some b
  | _ => none

/-- The step ends a transaction. -/
def ends : Output O B V A R Err → Bool
  | .silent => false
  | _ => true

/-- The step commits a transaction. -/
def commits : Output O B V A R Err → Bool
  | .committed .. => true
  | _ => false

@[simp] theorem changes_committed (sid : ℕ) (op : O) (b : B) (cs : List (Change V))
    (ls : List (ℕ × A)) (r : R) :
    (committed sid op b cs ls r : Output O B V A R Err).changes = cs := rfl

@[simp] theorem logs_committed (sid : ℕ) (op : O) (b : B) (cs : List (Change V))
    (ls : List (ℕ × A)) (r : R) :
    (committed sid op b cs ls r : Output O B V A R Err).logs = ls := rfl

end Output

namespace Db

/-- A database with the given committed table and log and no open transaction. -/
def idle (t : Table key) (log : List (ℕ × A)) (nextId : ℕ) : Db key A S Res O B R :=
  ⟨t, log, nextId, ∅⟩

/-- The rows the transaction `s` sees. -/
def view (db : Db key A S Res O B R) (s : Session S Res O B V A R) : Table key :=
  db.table.putAll s.news

/-- The open transactions other than `sid`. -/
def others (db : Db key A S Res O B R) (sid : ℕ) : List (Session S Res O B V A R) :=
  db.sessions.rows.filter fun s => decide (s.id ≠ sid)

/-- The row versions transactions other than `sid` have written and not yet committed. -/
def held (db : Db key A S Res O B R) (sid : ℕ) : List V :=
  (db.others sid).flatMap fun s => (s.own key).rows

/-- No transaction other than `sid` holds the row at `k`. -/
def free (db : Db key A S Res O B R) (sid : ℕ) (k : K) : Bool :=
  (db.held sid).all fun v => decide (key v ≠ k)

/-- End the transaction `sid` without publishing anything. -/
def drop (db : Db key A S Res O B R) (sid : ℕ) : Db key A S Res O B R :=
  { db with sessions := db.sessions.erase sid }

/-- Publish the writes and log rows of `s` and end it. -/
def publish (db : Db key A S Res O B R) (s : Session S Res O B V A R) : Db key A S Res O B R :=
  { db with
    table := db.view s
    log := db.log ++ s.logs
    sessions := db.sessions.erase s.id }

/-- The effect of a statement of `s`: the writes become its own, the log rows draw their ids. -/
def advance (db : Db key A S Res O B R) (s : Session S Res O B V A R) {q : S}
    (k : Res q → Program S Res (Finish R)) (eff : Effect V A (Res q)) : Db key A S Res O B R :=
  { db with
    nextId := db.nextId + eff.logs.length
    sessions := db.sessions.put
      { s with
        rest := k eff.result
        news := s.news ++ eff.news
        logs := s.logs ++ numbered db.nextId eff.logs } }

variable (sem : Semantics key A S Res B E Err) (code : O → Program S Res (Finish R))

/-- One step of the database, where it is enabled, with what it shows. -/
def step (db : Db key A S Res O B R) :
    Event O B E → Option (Db key A S Res O B R × Output O B V A R Err)
  | .start sid op b =>
    match db.sessions.get sid with
    | some _ => none
    | none => some ({ db with sessions := db.sessions.put ⟨sid, op, b, code op, [], []⟩ }, .silent)
  | .exec sid e =>
    match db.sessions.get sid with
    | none => none
    | some s =>
      match s.rest with
      | .stmt q k =>
        if sem.waits q s.began e (db.view s).rows (db.free sid) (db.held sid) then none
        else match sem.exec q s.began e (db.view s).rows (db.free sid) with
          | .error err => some (db.drop sid, .failed s.id s.op (some err))
          | .ok eff =>
            if eff.news.all fun v => db.free sid (key v) then some (db.advance s k eff, .silent)
            else none
      | _ => none
  | .fault sid =>
    match db.sessions.get sid with
    | none => none
    | some s => some (db.drop sid, .failed s.id s.op none)
  | .finish sid =>
    match db.sessions.get sid with
    | none => none
    | some s =>
      match s.rest with
      | .pure (.commit r) =>
        some (db.publish s, .committed s.id s.op s.began (db.table.record s.news) s.logs r)
      | .pure (.rollback r) => some (db.drop sid, .returned s.id s.op s.began r)
      | .unwind => some (db.drop sid, .failed s.id s.op none)
      | .stmt _ _ => none

/-- The steps of the database, one case for each way to go. -/
inductive Step (db : Db key A S Res O B R) :
    Event O B E → Db key A S Res O B R → Output O B V A R Err → Prop
  | start {sid op b} : db.sessions.get sid = none →
      Step db (.start sid op b)
        { db with sessions := db.sessions.put ⟨sid, op, b, code op, [], []⟩ } .silent
  | exec {s e q k eff} : s ∈ db.sessions.rows → s.rest = .stmt q k →
      sem.waits q s.began e (db.view s).rows (db.free s.id) (db.held s.id) = false →
      sem.exec q s.began e (db.view s).rows (db.free s.id) = .ok eff →
      (∀ v ∈ eff.news, db.free s.id (key v) = true) →
      Step db (.exec s.id e) (db.advance s k eff) .silent
  | reject {s e q k err} : s ∈ db.sessions.rows → s.rest = .stmt q k →
      sem.waits q s.began e (db.view s).rows (db.free s.id) (db.held s.id) = false →
      sem.exec q s.began e (db.view s).rows (db.free s.id) = .error err →
      Step db (.exec s.id e) (db.drop s.id) (.failed s.id s.op (some err))
  | fault {s} : s ∈ db.sessions.rows → Step db (.fault s.id) (db.drop s.id) (.failed s.id s.op none)
  | commit {s r} : s ∈ db.sessions.rows → s.rest = .pure (.commit r) →
      Step db (.finish s.id) (db.publish s)
        (.committed s.id s.op s.began (db.table.record s.news) s.logs r)
  | rollback {s r} : s ∈ db.sessions.rows → s.rest = .pure (.rollback r) →
      Step db (.finish s.id) (db.drop s.id) (.returned s.id s.op s.began r)
  | unwind {s} : s ∈ db.sessions.rows → s.rest = .unwind →
      Step db (.finish s.id) (db.drop s.id) (.failed s.id s.op none)

variable {sem code}

/-- **The step function takes exactly the steps of the relation.** -/
theorem step_iff {db db' : Db key A S Res O B R} {ev : Event O B E} {o : Output O B V A R Err} :
    db.step sem code ev = some (db', o) ↔ db.Step sem code ev db' o := by
  constructor
  -- the guards of the step are the premises of its constructor, and the other way round
  · intro h
    cases ev with
    | start sid op b =>
      simp only [step] at h
      split at h
      · cases h
      next hn => cases h; exact .start hn
    | exec sid e =>
      simp only [step] at h
      split at h
      · cases h
      next s hs =>
        obtain ⟨hm, rfl⟩ := Table.get_eq_some hs
        split at h
        next q k hr =>
          split at h
          · cases h
          next hw =>
            have hw := Bool.eq_false_iff.mpr hw
            split at h
            next err he => cases h; exact .reject hm hr hw he
            next eff he =>
              split at h
              next hf => cases h; exact .exec hm hr hw he (by simpa using hf)
              · cases h
        · cases h
    | fault sid =>
      simp only [step] at h
      split at h
      · cases h
      next s hs =>
        obtain ⟨hm, rfl⟩ := Table.get_eq_some hs
        cases h
        exact .fault hm
    | finish sid =>
      simp only [step] at h
      split at h
      · cases h
      next s hs =>
        obtain ⟨hm, rfl⟩ := Table.get_eq_some hs
        split at h
        next r hr => cases h; exact .commit hm hr
        next r hr => cases h; exact .rollback hm hr
        next hr => cases h; exact .unwind hm hr
        · cases h
  · intro h
    cases h with
    | start hn => simp [step, hn]
    | exec hm hr hw he hf =>
      simp [step, Table.get_key_of_mem hm, hr, hw, he]
      exact hf
    | reject hm hr hw he => simp [step, Table.get_key_of_mem hm, hr, hw, he]
    | fault hm => simp [step, Table.get_key_of_mem hm]
    | commit hm hr => simp [step, Table.get_key_of_mem hm, hr]
    | rollback hm hr => simp [step, Table.get_key_of_mem hm, hr]
    | unwind hm hr => simp [step, Table.get_key_of_mem hm, hr]

/-! ## What the others hold -/

omit [DecidableEq K] in
theorem mem_others {db : Db key A S Res O B R} {sid : ℕ} {s : Session S Res O B V A R} :
    s ∈ db.others sid ↔ s ∈ db.sessions.rows ∧ s.id ≠ sid := by
  simp [others]

theorem mem_held {db : Db key A S Res O B R} {sid : ℕ} {v : V} :
    v ∈ db.held sid ↔ ∃ s ∈ db.sessions.rows, s.id ≠ sid ∧ v ∈ (s.own key).rows := by
  simp [held, mem_others, and_assoc]

theorem free_iff {db : Db key A S Res O B R} {sid : ℕ} {k : K} :
    db.free sid k = true ↔ ∀ v ∈ db.held sid, key v ≠ k := by
  simp [free]

theorem exists_own_of_mem_news {s : Session S Res O B V A R} {v : V} (h : v ∈ s.news) :
    ∃ w ∈ (s.own key).rows, key w = key v :=
  Table.exists_mem_putAll ∅ h

theorem mem_news_of_own {s : Session S Res O B V A R} {v : V} (h : v ∈ (s.own key).rows) :
    v ∈ s.news := by
  rcases Table.mem_putAll h with h | ⟨h, -⟩
  · exact h
  · simp at h

/-- A row another transaction has written is not free. -/
theorem key_ne_of_free {db : Db key A S Res O B R} {sid : ℕ} {k : K} (h : db.free sid k = true)
    {s : Session S Res O B V A R} (hs : s ∈ db.sessions.rows) (hne : s.id ≠ sid) {v : V}
    (hv : v ∈ s.news) : key v ≠ k := by
  obtain ⟨w, hw, hk⟩ : ∃ w ∈ (s.own key).rows, key w = key v := exists_own_of_mem_news hv
  exact hk ▸ free_iff.mp h w (mem_held.mpr ⟨s, hs, hne, hw⟩)

/-- A transaction sees its own last version of a row it has written, else the committed one. -/
theorem get_view (db : Db key A S Res O B R) (s : Session S Res O B V A R) (k : K) :
    (db.view s).get k = ((s.own key).get k).or (db.table.get k) := by
  by_cases h : ∃ v ∈ s.news, key v = k
  · have hs : ((s.own key).get k).isSome := by
      obtain ⟨v, hv, rfl⟩ := h
      obtain ⟨w, hw, hk⟩ : ∃ w ∈ (s.own key).rows, key w = key v := exists_own_of_mem_news hv
      rw [← hk, Table.get_key_of_mem hw]
      rfl
    rw [view, Table.get_putAll_of_mem db.table ∅ h, Option.or_of_isSome hs, Session.own]
  · have hn : ∀ v ∈ s.news, key v ≠ k := by simpa using h
    rw [view, Session.own, Table.get_putAll_of_notMem _ hn, Table.get_putAll_of_notMem _ hn]
    simp

end Db

end RowStore
