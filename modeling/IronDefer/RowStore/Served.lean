import IronDefer.RowStore.Alone

/-!
# A call that is served undisturbed

What a call does on a database without open transactions, where nothing else happens until it has
ended and its connection is not lost. The statements see the rows as they were with the call's own
versions over them, and nobody holds a row, so the call always ends: its program returns, unwinds,
or has a statement refused.

## Main definitions

* `Program.Executes`: what a program does on a table by itself
* `Serves`: a call is served undisturbed
* `Ending.shows`, `Ending.leaves`: what a call shows that ends so, and the database it leaves

## Main results

* `serves_iff`: **a call is served as its program executes**
* `Program.Executes.exists_ending`: a program always ends
-/

namespace RowStore

variable {K V A S B E Err O R : Type} [DecidableEq K] {Res : S → Type} {key : V → K}

/-- How a program ends: it returns, it unwinds, or one of its statements is refused. -/
inductive Ending (α Err : Type) where
  | returned (a : α)
  | unwound
  | refused (err : Err)
  deriving DecidableEq

/-- Nobody holds a row. -/
def allFree (_ : K) : Bool := true

section Executes

variable (sem : Semantics key A S Res B E Err) (b : B) (choice : E → Prop) (t : Table key)

/-- Executed on the table `t` after having written `vs` and appended `ls`, a program ends with the
versions `vs'` and the log rows `ls'` written. -/
inductive Program.Executes {α : Type} :
    Program S Res α → List V → List A → List V → List A → Ending α Err → Prop
  | pure {a vs ls} : Executes (.pure a) vs ls vs ls (.returned a)
  | unwind {vs ls} : Executes .unwind vs ls vs ls .unwound
  | refuse {q k e err vs ls} : choice e →
      sem.exec q b e (t.putAll vs).rows allFree = .error err →
      Executes (.stmt q k) vs ls vs ls (.refused err)
  | step {q k e eff vs ls vs' ls' fin} : choice e →
      sem.exec q b e (t.putAll vs).rows allFree = .ok eff →
      Executes (k eff.result) (vs ++ eff.news) (ls ++ eff.logs) vs' ls' fin →
      Executes (.stmt q k) vs ls vs' ls' fin

variable {sem b choice t}

/-- A program always ends. -/
theorem Program.Executes.exists_ending {α : Type} {e : E} (he : choice e) (p : Program S Res α)
    (vs : List V) (ls : List A) : ∃ vs' ls' fin, p.Executes sem b choice t vs ls vs' ls' fin := by
  induction p generalizing vs ls with
  | pure a => exact ⟨vs, ls, _, .pure⟩
  | unwind => exact ⟨vs, ls, _, .unwind⟩
  | stmt q k ih =>
    cases hx : sem.exec q b e (t.putAll vs).rows allFree with
    | error err => exact ⟨vs, ls, _, .refuse he hx⟩
    | ok eff =>
      obtain ⟨vs', ls', fin, h⟩ := ih eff.result (vs ++ eff.news) (ls ++ eff.logs)
      exact ⟨vs', ls', fin, .step he hx h⟩

end Executes

/-! ## Serving a call -/

/-- The moves of one call, none of which loses its connection. -/
def Undisturbed (choice : Table key → E → Prop) (sid : ℕ) (op : O) (b : B)
    (os : List (Output O B V A R Err)) (db : Db key A S Res O B R) (ev : Event O B E) : Prop :=
  Alone choice sid op b os db ev ∧ ∀ s, ev ≠ .fault s

/-- What a call shows that ends so after it has written `vs` and appended `ls`. -/
def Ending.shows (t : Table key) (n sid : ℕ) (op : O) (b : B) (vs : List V) (ls : List A) :
    Ending (Finish R) Err → Output O B V A R Err
  | .returned (.commit r) => .committed sid op b (t.record vs) (numbered n ls) r
  | .returned (.rollback r) => .returned sid op b r
  | .unwound => .failed sid op none
  | .refused err => .failed sid op (some err)

/-- The database a call leaves that ends so. -/
def Ending.leaves (t : Table key) (log : List (ℕ × A)) (n : ℕ) (vs : List V) (ls : List A) :
    Ending (Finish R) Err → Db key A S Res O B R
  | .returned (.commit _) => .idle (t.putAll vs) (log ++ numbered n ls) (n + ls.length)
  | _ => .idle t log (n + ls.length)

section Serves

variable (sem : Semantics key A S Res B E Err) (code : O → Program S Res (Finish R))
  (choice : Table key → E → Prop)

/-- From a database without open transactions, the call `op` is served undisturbed: it ends with `o`
and leaves the database `db`. -/
def Serves (t : Table key) (log : List (ℕ × A)) (n sid : ℕ) (op : O) (b : B)
    (o : Output O B V A R Err) (db : Db key A S Res O B R) : Prop :=
  o.ends = true ∧ ∃ ps, Going ps ∧
    Reaches (Db.step sem code) (Undisturbed choice sid op b) (.idle t log n) (ps ++ [o]) db

variable {sem code choice}
variable {t : Table key} {log : List (ℕ × A)} {n sid : ℕ} {op : O} {b : B}

theorem numbered_append (n : ℕ) (as bs : List A) :
    numbered n (as ++ bs) = numbered n as ++ numbered (n + as.length) bs := by
  induction as generalizing n with
  | nil => rfl
  | cons a as ih =>
    rw [List.cons_append, numbered, ih, numbered, List.cons_append, List.length_cons]
    congr 3
    omega

/-- The database while it serves one transaction. -/
def Db.serving (t : Table key) (log : List (ℕ × A)) (n : ℕ) (s : Session S Res O B V A R) :
    Db key A S Res O B R :=
  ⟨t, log, n, (∅ : Table Session.id).put s⟩

omit [DecidableEq K] in
theorem Db.mem_serving {s s' : Session S Res O B V A R} :
    s' ∈ (Db.serving t log n s : Db key A S Res O B R).sessions.rows ↔ s' = s := by
  change s' ∈ ((∅ : Table Session.id).put s).rows ↔ s' = s
  rw [Table.mem_put]
  simp

theorem Db.held_serving {s : Session S Res O B V A R} :
    (Db.serving t log n s : Db key A S Res O B R).held s.id = [] := by
  apply List.eq_nil_iff_forall_not_mem.mpr
  intro v hv
  obtain ⟨s', hs', hne, -⟩ := mem_held.mp hv
  rw [mem_serving] at hs'
  exact hne (by rw [hs'])

theorem Db.free_serving {s : Session S Res O B V A R} :
    (Db.serving t log n s : Db key A S Res O B R).free s.id = allFree := by
  ext k
  rw [allFree, free_iff, held_serving]
  exact fun v hv => nomatch hv

theorem Table.put_put {v w : V} (h : key v = key w) :
    ((∅ : Table key).put v).put w = (∅ : Table key).put w := by
  have hrows : (((∅ : Table key).put v).put w).rows = ((∅ : Table key).put w).rows := by
    simp [Table.put, writeRow, h]
  cases hv : ((∅ : Table key).put v).put w
  cases hw : (∅ : Table key).put w
  rw [hv, hw] at hrows
  cases hrows
  rfl

theorem Table.erase_put (v : V) : ((∅ : Table key).put v).erase (key v) = ∅ := by
  have hrows : (((∅ : Table key).put v).erase (key v)).rows = (∅ : Table key).rows := by
    simp [Table.put, Table.erase, writeRow]
  cases hv : ((∅ : Table key).put v).erase (key v)
  rw [hv] at hrows
  cases hrows
  rfl

/-- The transaction of a call that has written `vs` and appended `ls`. -/
def Session.of (n sid : ℕ) (op : O) (b : B) (rest : Program S Res (Finish R)) (vs : List V)
    (ls : List A) : Session S Res O B V A R :=
  ⟨sid, op, b, rest, vs, numbered n ls⟩

/-- The database while it serves a call that has written `vs` and appended `ls`. -/
def Db.at (t : Table key) (log : List (ℕ × A)) (n sid : ℕ) (op : O) (b : B)
    (rest : Program S Res (Finish R)) (vs : List V) (ls : List A) : Db key A S Res O B R :=
  .serving t log (n + ls.length) (.of n sid op b rest vs ls)

omit [DecidableEq K] in
theorem Db.advance_at {q : S} {k : Res q → Program S Res (Finish R)} {vs : List V} {ls : List A}
    (eff : Effect V A (Res q)) :
    (Db.at t log n sid op b (.stmt q k) vs ls : Db key A S Res O B R).advance
      (.of n sid op b (.stmt q k) vs ls) k eff =
        .at t log n sid op b (k eff.result) (vs ++ eff.news) (ls ++ eff.logs) := by
  simp only [Db.at, Db.serving, Db.advance, Session.of, numbered_append, List.length_append,
    Nat.add_assoc]
  exact congrArg (Db.mk t log _) (Table.put_put rfl)

omit [DecidableEq K] in
theorem Db.drop_at {rest : Program S Res (Finish R)} {vs : List V} {ls : List A} :
    (Db.at t log n sid op b rest vs ls : Db key A S Res O B R).drop sid =
      .idle t log (n + ls.length) := by
  exact congrArg (Db.mk t log _) (Table.erase_put (Session.of n sid op b rest vs ls))

theorem Db.publish_at {rest : Program S Res (Finish R)} {vs : List V} {ls : List A} :
    (Db.at t log n sid op b rest vs ls : Db key A S Res O B R).publish
      (.of n sid op b rest vs ls) =
        .idle (t.putAll vs) (log ++ numbered n ls) (n + ls.length) := by
  exact congrArg (Db.mk (t.putAll vs) (log ++ numbered n ls) _)
    (Table.erase_put (Session.of n sid op b rest vs ls))

/-- What the database does while it serves a call. -/
theorem Db.step_at {rest : Program S Res (Finish R)} {vs : List V} {ls : List A}
    {ev : Event O B E} {db : Db key A S Res O B R} {o : Output O B V A R Err}
    {os : List (Output O B V A R Err)}
    (hok : Undisturbed choice sid op b os (.at t log n sid op b rest vs ls) ev)
    (hs : (Db.at t log n sid op b rest vs ls : Db key A S Res O B R).Step sem code ev db o) :
    (∃ q k e eff, rest = .stmt q k ∧ choice t e ∧
      sem.exec q b e (t.putAll vs).rows allFree = .ok eff ∧ o = .silent ∧
        db = .at t log n sid op b (k eff.result) (vs ++ eff.news) (ls ++ eff.logs)) ∨
    ∃ fin, rest.Executes sem b (choice t) t vs ls vs ls fin ∧
      o = fin.shows t n sid op b vs ls ∧ db = fin.leaves t log n vs ls := by
  have hone : ∀ {s : Session S Res O B V A R},
      s ∈ (Db.at t log n sid op b rest vs ls : Db key A S Res O B R).sessions.rows →
        s = .of n sid op b rest vs ls := fun hm => Db.mem_serving.mp hm
  have hfree : (Db.at t log n sid op b rest vs ls : Db key A S Res O B R).free sid = allFree :=
    Db.free_serving (s := .of n sid op b rest vs ls)
  cases hs with
  | start hn =>
    obtain ⟨-, rfl, -⟩ := hok.1
    -- the number is taken already
    have hne := Table.get_eq_none_iff.mp hn _ (Db.mem_serving.mpr rfl)
    exact absurd rfl hne
  | @exec s e q k eff hm hrest _ he =>
    obtain rfl := hone hm
    obtain ⟨-, -, hc⟩ := hok.1
    change sem.exec q b e (t.putAll vs).rows (Db.free _ sid) = .ok eff at he
    rw [hfree] at he
    obtain rfl : rest = .stmt q k := hrest
    exact .inl ⟨q, k, e, eff, rfl, hc, he, rfl, Db.advance_at eff⟩
  | @reject s e q k err hm hrest _ he =>
    obtain rfl := hone hm
    obtain ⟨-, -, hc⟩ := hok.1
    change sem.exec q b e (t.putAll vs).rows (Db.free _ sid) = .error err at he
    rw [hfree] at he
    obtain rfl : rest = .stmt q k := hrest
    exact .inr ⟨_, .refuse hc he, rfl, Db.drop_at⟩
  | fault => exact absurd rfl (hok.2 _)
  | @commit s r hm hrest =>
    obtain rfl := hone hm
    obtain rfl : rest = .pure (.commit r) := hrest
    exact .inr ⟨_, .pure, rfl, Db.publish_at⟩
  | @rollback s r hm hrest =>
    obtain rfl := hone hm
    obtain rfl : rest = .pure (.rollback r) := hrest
    exact .inr ⟨_, .pure, rfl, Db.drop_at⟩
  | @unwind s hm hrest =>
    obtain rfl := hone hm
    obtain rfl : rest = .unwind := hrest
    exact .inr ⟨_, .unwind, rfl, Db.drop_at⟩

omit [DecidableEq K] in
/-- What has ended shows its end. -/
theorem Ending.ends_shows [DecidableEq K] (fin : Ending (Finish R) Err) (vs : List V)
    (ls : List A) :
    (fin.shows t n sid op b vs ls).ends = true := by
  rcases fin with (_ | _) | _ | _ <;> rfl

/-- Until it has ended, a call is where its program has got to. -/
theorem Reaches.at_of_going {os : List (Output O B V A R Err)} {db : Db key A S Res O B R}
    (h : Reaches (Db.step sem code) (Undisturbed choice sid op b) (.idle t log n) os db)
    (hos : Going os) :
    db = .idle t log n ∨ ∃ rest vs ls, db = .at t log n sid op b rest vs ls ∧
      ∀ vs' ls' fin, rest.Executes sem b (choice t) t vs ls vs' ls' fin →
        (code op).Executes sem b (choice t) t [] [] vs' ls' fin := by
  induction h with
  | init => exact .inl rfl
  | @next os db ev db' o _ hok hs ih =>
    obtain ⟨hos, ho⟩ := going_append_singleton.mp hos
    rcases ih hos with rfl | ⟨rest, vs, ls, rfl, hrest⟩
    · cases Db.step_iff.mp hs with
      | start =>
        obtain ⟨-, rfl, rfl, rfl⟩ := hok.1
        exact .inr ⟨_, [], [], rfl, fun _ _ _ h => h⟩
      | exec hm => cases hm
      | _ => cases ho
    · rcases Db.step_at hok (Db.step_iff.mp hs) with ⟨q, k, e, eff, rfl, hc, he, -, rfl⟩ | ⟨fin, -, rfl, -⟩
      · exact .inr ⟨_, _, _, rfl, fun _ _ _ h => hrest _ _ _ (.step hc he h)⟩
      · rw [fin.ends_shows] at ho
        cases ho

/-- The call makes one more step. -/
theorem Reaches.serve {os : List (Output O B V A R Err)} {db db' : Db key A S Res O B R}
    {ev : Event O B E} {o : Output O B V A R Err}
    (h : Reaches (Db.step sem code) (Undisturbed choice sid op b) (.idle t log n) os db)
    (hs : db.Step sem code ev db' o) (hok : Undisturbed choice sid op b os db ev) :
    Reaches (Db.step sem code) (Undisturbed choice sid op b) (.idle t log n) (os ++ [o]) db' :=
  .next h hok (Db.step_iff.mpr hs)

/-- What executes is served, from where the call has got to. -/
theorem Program.Executes.reaches
    (hwait : ∀ q b e rows, sem.waits q b e rows allFree [] = false)
    {rest : Program S Res (Finish R)} {vs vs' : List V} {ls ls' : List A}
    {fin : Ending (Finish R) Err} (h : rest.Executes sem b (choice t) t vs ls vs' ls' fin)
    {os : List (Output O B V A R Err)} (hos : Going os)
    (hr : Reaches (Db.step sem code) (Undisturbed choice sid op b) (.idle t log n) os
      (.at t log n sid op b rest vs ls)) :
    ∃ ps, Going ps ∧ Reaches (Db.step sem code) (Undisturbed choice sid op b) (.idle t log n)
      (ps ++ [fin.shows t n sid op b vs' ls']) (fin.leaves t log n vs' ls') := by
  have hm : ∀ (rest : Program S Res (Finish R)) (vs : List V) (ls : List A),
      Session.of n sid op b rest vs ls ∈
        (Db.at t log n sid op b rest vs ls : Db key A S Res O B R).sessions.rows :=
    fun _ _ _ => Db.mem_serving.mpr rfl
  have hfree : ∀ (rest : Program S Res (Finish R)) (vs : List V) (ls : List A),
      (Db.at t log n sid op b rest vs ls : Db key A S Res O B R).free sid = allFree :=
    fun rest vs ls => Db.free_serving (s := .of n sid op b rest vs ls)
  have hheld : ∀ (rest : Program S Res (Finish R)) (vs : List V) (ls : List A),
      (Db.at t log n sid op b rest vs ls : Db key A S Res O B R).held sid = [] :=
    fun rest vs ls => Db.held_serving (s := .of n sid op b rest vs ls)
  -- nobody holds anything, so the next statement does not wait
  have hgo : ∀ (q : S) (k : Res q → Program S Res (Finish R)) (e : E) (vs : List V) (ls : List A),
      sem.waits q b e (t.putAll vs).rows
        (Db.free (.at t log n sid op b (.stmt q k) vs ls : Db key A S Res O B R) sid)
        (Db.held (.at t log n sid op b (.stmt q k) vs ls : Db key A S Res O B R) sid) = false := by
    intro q k e vs ls
    rw [hheld, hfree]
    exact hwait _ _ _ _
  induction h generalizing os with
  | @pure fin vs ls =>
    cases fin with
    | commit r =>
      have hstep : Db.Step sem code (.at t log n sid op b (.pure (.commit r)) vs ls) (.finish sid) _ _ :=
        .commit (hm _ vs ls) rfl
      rw [Db.publish_at] at hstep
      exact ⟨os, hos, hr.serve hstep ⟨⟨hos, rfl⟩, by simp⟩⟩
    | rollback r =>
      have hstep : Db.Step sem code (.at t log n sid op b (.pure (.rollback r)) vs ls) (.finish sid)
          (Db.drop _ sid) _ := .rollback (hm _ vs ls) rfl
      rw [Db.drop_at] at hstep
      exact ⟨os, hos, hr.serve hstep ⟨⟨hos, rfl⟩, by simp⟩⟩
  | @unwind vs ls =>
    have hstep : Db.Step sem code (.at t log n sid op b .unwind vs ls) (.finish sid) (Db.drop _ sid) _ :=
      .unwind (hm _ vs ls) rfl
    rw [Db.drop_at] at hstep
    exact ⟨os, hos, hr.serve hstep ⟨⟨hos, rfl⟩, by simp⟩⟩
  | @refuse q k e err vs ls hc he =>
    rw [← hfree (.stmt q k) vs ls] at he
    have hstep : Db.Step sem code (.at t log n sid op b (.stmt q k) vs ls) (.exec sid e)
        (Db.drop _ sid) _ := .reject (hm _ vs ls) rfl (hgo q k e vs ls) he
    rw [Db.drop_at] at hstep
    exact ⟨os, hos, hr.serve hstep ⟨⟨hos, rfl, hc⟩, by simp⟩⟩
  | @step q k e eff vs ls vs' ls' fin hc he _ ih =>
    rw [← hfree (.stmt q k) vs ls] at he
    have hown : ∀ v ∈ eff.news,
        Db.free (.at t log n sid op b (.stmt q k) vs ls : Db key A S Res O B R) sid (key v) = true := by
      intro v _
      rw [hfree]
      rfl
    have hstep : Db.Step sem code (.at t log n sid op b (.stmt q k) vs ls) (.exec sid e) _ _ :=
      .exec (hm _ vs ls) rfl (hgo q k e vs ls) he hown
    rw [Db.advance_at] at hstep
    have hgoing : Going (os ++ [.silent]) := going_append_singleton.mpr ⟨hos, rfl⟩
    exact ih hgoing (hr.serve hstep ⟨⟨hos, rfl, hc⟩, by simp⟩)

/-- **A call is served as its program executes**, where nothing waits that nobody holds up. -/
theorem serves_iff (hwait : ∀ q b e rows, sem.waits q b e rows allFree [] = false)
    {o : Output O B V A R Err} {db : Db key A S Res O B R} :
    Serves sem code choice t log n sid op b o db ↔
      ∃ vs ls fin, (code op).Executes sem b (choice t) t [] [] vs ls fin ∧
        o = fin.shows t n sid op b vs ls ∧ db = fin.leaves t log n vs ls := by
  constructor
  · rintro ⟨hends, ps, hps, h⟩
    obtain ⟨db', ev, hr, hok, hs⟩ := h.last
    -- the call has not begun, or its program is where it has been executed to
    rcases Reaches.at_of_going hr hps with rfl | ⟨rest, vs, ls, rfl, hrest⟩
    · cases Db.step_iff.mp hs with
      | start => cases hends
      | exec => cases hends
      | reject hm => cases hm
      | fault hm => cases hm
      | commit hm => cases hm
      | rollback hm => cases hm
      | unwind hm => cases hm
    · rcases Db.step_at hok (Db.step_iff.mp hs) with ⟨_, _, _, _, _, _, _, rfl, _⟩ | ⟨fin, hx, ho, hdb⟩
      · cases hends
      · exact ⟨vs, ls, fin, hrest _ _ _ hx, ho, hdb⟩
  · rintro ⟨vs, ls, fin, hx, rfl, rfl⟩
    have hstart : Reaches (Db.step sem code) (Undisturbed choice sid op b) (.idle t log n)
        ([] ++ [.silent]) (.at t log n sid op b (code op) [] []) :=
      Reaches.serve .init (.start rfl) ⟨⟨fun o ho => (nomatch ho), rfl, rfl, rfl⟩, by simp⟩
    have hgoing : Going ([] ++ [.silent] : List (Output O B V A R Err)) :=
      going_append_singleton.mpr ⟨fun o ho => (nomatch ho), rfl⟩
    obtain ⟨ps, hps, hr⟩ := hx.reaches hwait hgoing hstart
    exact ⟨fin.ends_shows vs ls, ps, hps, hr⟩

end Serves

end RowStore
