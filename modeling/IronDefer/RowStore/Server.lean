import IronDefer.RowStore.Sessions

/-!
# A database and its clients

A client calls the database and waits for the answer. It may stop waiting; its transaction is then
left to the database, which executes the statement that is under way, and sends no further one. A
statement's snapshot is not older than its transaction: it shows the row versions that were
committed when the transaction began, where they have not changed since in what matters.

## Main definitions

* `Server`: a database, what it has shown, and the calls made so far
* `Server.call`, `Server.proceed`, `Server.leave`: a client calls, the database makes a step, a
  client stops waiting
* `Server.answer?`: the answer to a call, once its transaction has ended
* `Server.Fresh`: every call has its own number
* `Server.Extends`: what has been shown and called stays so

## Main results

* `Server.Fresh.call`, `Server.Fresh.proceed`: calls are numbered afresh
* `Server.answer?_eq_some`: an answer is the reply its transaction has ended with
-/

namespace RowStore

variable {K V A S B E Err O R : Type} [DecidableEq K] {Res : S → Type} {key : V → K}

/-- The number of the transaction a step ends. -/
def Output.sid? : Output O B V A R Err → Option ℕ
  | .silent => none
  | .failed sid _ _ => some sid
  | .returned sid _ _ _ => some sid
  | .committed sid _ _ _ _ _ => some sid

namespace Db

variable {sem : Semantics key A S Res B E Err} {code : O → Program S Res (Finish R)}
  {db db' : Db key A S Res O B R} {ev : Event O B E} {o : Output O B V A R Err}

/-- A step leaves the calls of the open transactions as they are, and begins at most one. -/
theorem Step.session_of_mem (hs : db.Step sem code ev db' o) {s' : Session S Res O B V A R}
    (hm : s' ∈ db'.sessions.rows) :
    (∃ s ∈ db.sessions.rows, s.id = s'.id ∧ s.op = s'.op) ∨ ∃ b, ev = .start s'.id s'.op b := by
  cases hs with
  | start hn =>
    rcases Table.mem_put.mp hm with rfl | ⟨hm, -⟩
    · exact .inr ⟨_, rfl⟩
    · exact .inl ⟨s', hm, rfl, rfl⟩
  | exec hs =>
    rcases Table.mem_put.mp hm with rfl | ⟨hm, -⟩
    · exact .inl ⟨_, hs, rfl, rfl⟩
    · exact .inl ⟨s', hm, rfl, rfl⟩
  | commit => exact .inl ⟨s', (mem_sessions_publish.mp hm).1, rfl, rfl⟩
  | _ => exact .inl ⟨s', (mem_sessions_drop.mp hm).1, rfl, rfl⟩

theorem Step.sid?_of_start {sid : ℕ} {op : O} {b : B}
    (hs : db.Step sem code (.start sid op b) db' o) : o.sid? = none := by
  cases hs
  rfl

/-- An open transaction stays as it is, or executes its next statement, or ends. -/
theorem Step.session_kept (hs : db.Step sem code ev db' o) {s : Session S Res O B V A R}
    (hm : s ∈ db.sessions.rows) :
    s ∈ db'.sessions.rows ∨ o.sid? = some s.id ∨ ∃ e q k eff, ev = .exec s.id e ∧
      s.rest = .stmt q k ∧ sem.exec q s.began e (db.view s).rows (db.free s.id) = .ok eff ∧
      db' = db.advance s k eff := by
  have hsame : ∀ {s'}, s' ∈ db.sessions.rows → s'.id = s.id → s' = s := fun hm' hid =>
    Table.eq_of_key_eq hm' hm hid
  -- a step is about one transaction: this one, or another
  cases hs with
  | start hn =>
    refine .inl (Table.mem_put.mpr (.inr ⟨hm, ?_⟩))
    exact (Table.get_eq_none_iff.mp hn s hm).symm
  | @exec s' e q k eff hm' hrest _ he =>
    by_cases hid : s'.id = s.id
    · obtain rfl := hsame hm' hid
      exact .inr (.inr ⟨e, q, k, eff, rfl, hrest, he, rfl⟩)
    · exact .inl (Table.mem_put.mpr (.inr ⟨hm, hid⟩))
  | @commit s' =>
    by_cases hid : s'.id = s.id
    · exact .inr (.inl (congrArg some hid))
    · exact .inl (mem_sessions_publish.mpr ⟨hm, Ne.symm hid⟩)
  | @reject s' | @fault s' | @rollback s' | @unwind s' =>
    by_cases hid : s'.id = s.id
    · exact .inr (.inl (congrArg some hid))
    · exact .inl (mem_sessions_drop.mpr ⟨hm, Ne.symm hid⟩)

/-- A step that ends a transaction answers its call, and closes it. -/
theorem Step.session_of_sid (hs : db.Step sem code ev db' o) {sid : ℕ} (ho : o.sid? = some sid) :
    (∃ s ∈ db.sessions.rows, s.id = sid ∧ o.op = some s.op) ∧
      ∀ s ∈ db'.sessions.rows, s.id ≠ sid := by
  cases hs with
  | start => cases ho
  | exec => cases ho
  | commit hm =>
    cases ho
    exact ⟨⟨_, hm, rfl, rfl⟩, fun s hs => (mem_sessions_publish.mp hs).2⟩
  | _ hm =>
    cases ho
    exact ⟨⟨_, hm, rfl, rfl⟩, fun s hs => (mem_sessions_drop.mp hs).2⟩

end Db

/-- A call: its number, what is called, and the committed rows when its transaction began. -/
structure Begun (key : V → K) (O : Type) where
  sid : ℕ
  op : O
  table : Table key

/-- A database, what it has shown, the number of the next call, the calls so far, and the
transactions whose clients have stopped waiting. A transaction is listed again once it has executed
the statement that was under way. -/
structure Server (key : V → K) (A S : Type) (Res : S → Type) (O B R Err : Type) where
  db : Db key A S Res O B R
  shown : List (Output O B V A R Err)
  next : ℕ
  begun : List (Begun key O)
  dropped : List ℕ

namespace Server

variable (sem : Semantics key A S Res B E Err) (code : O → Program S Res (Finish R))
  (sees : E → K → Bool) (same : V → V → Prop) [DecidableRel same]

/-- A database nobody has called yet. -/
def idle (db : Db key A S Res O B R) : Server key A S Res O B R Err := ⟨db, [], 0, [], []⟩

/-- The reply a transaction has ended with, none where it failed. -/
def answer? (sv : Server key A S Res O B R Err) (sid : ℕ) : Option (Option R) :=
  sv.shown.findSome? fun o => if o.sid? = some sid then some o.reply else none

/-- A client begins a transaction. -/
def call (sv : Server key A S Res O B R Err) (op : O) (b : B) :
    Option (Server key A S Res O B R Err) :=
  (sv.db.step sem code (.start sv.next op b)).map fun r =>
    { sv with
      db := r.1
      shown := sv.shown ++ [r.2]
      next := sv.next + 1
      begun := ⟨sv.next, op, sv.db.table⟩ :: sv.begun }

/-- The snapshot of a statement of `sid` shows every row that is as it was when `sid` began. -/
def Sees (sv : Server key A S Res O B R Err) (sid : ℕ) (e : E) : Prop :=
  ∀ x ∈ sv.begun, x.sid = sid → ∀ v₀ ∈ x.table.rows, ∀ v ∈ sv.db.table.rows,
    key v₀ = key v → same v₀ v → sees e (key v) = true

instance (sv : Server key A S Res O B R Err) (sid : ℕ) (e : E) :
    Decidable (sv.Sees sees same sid e) :=
  inferInstanceAs (Decidable (∀ x ∈ sv.begun, x.sid = sid → ∀ v₀ ∈ x.table.rows,
    ∀ v ∈ sv.db.table.rows, key v₀ = key v → same v₀ v → sees e (key v) = true))

/-- The steps the database may make by itself. -/
def Permits (sv : Server key A S Res O B R Err) : Event O B E → Prop
  | .start _ _ _ => False
  | .exec sid e => sv.dropped.count sid < 2 ∧ sv.Sees sees same sid e
  | .fault _ | .finish _ => True

instance (sv : Server key A S Res O B R Err) : (ev : Event O B E) →
    Decidable (sv.Permits sees same ev)
  | .start _ _ _ => .isFalse id
  | .exec sid e => inferInstanceAs (Decidable (sv.dropped.count sid < 2 ∧ sv.Sees sees same sid e))
  | .fault _ | .finish _ => .isTrue trivial

/-- A transaction whose client has stopped waiting executes one more statement. -/
def spent (dropped : List ℕ) : Event O B E → List ℕ
  | .exec sid _ => if sid ∈ dropped then sid :: dropped else dropped
  | .start _ _ _ | .fault _ | .finish _ => dropped

/-- The database makes a step. -/
def proceed (sv : Server key A S Res O B R Err) (ev : Event O B E) :
    Option (Server key A S Res O B R Err) :=
  if sv.Permits sees same ev then
    (sv.db.step sem code ev).map fun r =>
      { sv with db := r.1, shown := sv.shown ++ [r.2], dropped := spent sv.dropped ev }
  else none

/-- Clients stop waiting. -/
def leave (sv : Server key A S Res O B R Err) (sids : List ℕ) : Server key A S Res O B R Err :=
  { sv with dropped := sids ++ sv.dropped }

variable {sem code sees same}
variable {sv sv' : Server key A S Res O B R Err} {op : O} {b : B} {ev : Event O B E}

/-- What a call does. -/
theorem call_eq_some (h : sv.call sem code op b = some sv') :
    ∃ o, sv.db.Step sem code (.start sv.next op b) sv'.db o ∧ sv'.shown = sv.shown ++ [o] ∧
      sv'.next = sv.next + 1 ∧ sv'.begun = ⟨sv.next, op, sv.db.table⟩ :: sv.begun := by
  obtain ⟨⟨db', o⟩, hs, rfl⟩ := Option.map_eq_some_iff.mp h
  exact ⟨o, Db.step_iff.mp hs, rfl, rfl, rfl⟩

/-- What a step of the database does. -/
theorem proceed_eq_some (h : sv.proceed sem code sees same ev = some sv') :
    sv.Permits sees same ev ∧ ∃ o, sv.db.Step sem code ev sv'.db o ∧
      sv'.shown = sv.shown ++ [o] ∧ sv'.next = sv.next ∧ sv'.begun = sv.begun := by
  unfold proceed at h
  split at h
  next hp =>
    obtain ⟨⟨db', o⟩, hs, rfl⟩ := Option.map_eq_some_iff.mp h
    exact ⟨hp, o, Db.step_iff.mp hs, rfl, rfl, rfl⟩
  · cases h

/-- A call leaves the others waiting as they do. -/
theorem dropped_of_call (h : sv.call sem code op b = some sv') : sv'.dropped = sv.dropped := by
  obtain ⟨_, -, rfl⟩ := Option.map_eq_some_iff.mp h
  rfl

omit [DecidableEq K] in
theorem mem_spent {dropped : List ℕ} {sid : ℕ} : sid ∈ spent dropped ev ↔ sid ∈ dropped := by
  cases ev with
  | exec s e =>
    show sid ∈ (if s ∈ dropped then s :: dropped else dropped) ↔ sid ∈ dropped
    by_cases hs : s ∈ dropped
    · rw [if_pos hs, List.mem_cons]
      exact or_iff_right_of_imp fun h => h ▸ hs
    · rw [if_neg hs]
  | _ => exact Iff.rfl

theorem dropped_of_proceed (h : sv.proceed sem code sees same ev = some sv') {sid : ℕ} :
    sid ∈ sv'.dropped ↔ sid ∈ sv.dropped := by
  unfold proceed at h
  split at h
  · obtain ⟨_, -, rfl⟩ := Option.map_eq_some_iff.mp h
    exact mem_spent
  · cases h

/-! ## Numbers -/

/-- Every call has its own number, under which its transaction is open or has ended once. -/
structure Fresh (sv : Server key A S Res O B R Err) : Prop where
  lt : ∀ x ∈ sv.begun, x.sid < sv.next
  unique : ∀ x ∈ sv.begun, ∀ y ∈ sv.begun, x.sid = y.sid → x = y
  opened : ∀ s ∈ sv.db.sessions.rows, ∃ x ∈ sv.begun, x.sid = s.id ∧ x.op = s.op
  ended : ∀ o ∈ sv.shown, ∀ sid, o.sid? = some sid →
    (∃ x ∈ sv.begun, x.sid = sid ∧ o.op = some x.op) ∧ ∀ s ∈ sv.db.sessions.rows, s.id ≠ sid
  once : ∀ o ∈ sv.shown, ∀ o' ∈ sv.shown, ∀ sid, o.sid? = some sid → o'.sid? = some sid → o = o'

omit [DecidableEq K] in
theorem fresh_idle {db : Db key A S Res O B R} (h : db.sessions.rows = []) :
    (idle db : Server key A S Res O B R Err).Fresh where
  lt := fun _ hx => nomatch hx
  unique := fun _ hx => nomatch hx
  opened := fun s hs => by
    have hs : s ∈ db.sessions.rows := hs
    rw [h] at hs
    cases hs
  ended := fun _ ho => nomatch ho
  once := fun _ ho => nomatch ho

namespace Fresh

theorem call (h : sv.Fresh) (hc : sv.call sem code op b = some sv') : sv'.Fresh := by
  obtain ⟨o, hs, hshown, hnext, hbegun⟩ := call_eq_some hc
  -- the new number is greater than all that have been given
  have hnew : ∀ x ∈ sv.begun, x.sid ≠ sv.next := fun x hx => Nat.ne_of_lt (h.lt x hx)
  have hsilent : o.sid? = none := hs.sid?_of_start
  have hmem : ∀ o' ∈ sv'.shown, ∀ sid, o'.sid? = some sid → o' ∈ sv.shown := by
    intro o' ho' sid hsid
    rw [hshown] at ho'
    rcases List.mem_append.mp ho' with ho' | ho'
    · exact ho'
    · rw [List.mem_singleton.mp ho', hsilent] at hsid
      cases hsid
  refine ⟨?_, ?_, ?_, ?_, ?_⟩
  · intro x hx
    rw [hbegun] at hx
    rw [hnext]
    rcases List.mem_cons.mp hx with rfl | hx
    · exact Nat.lt_succ_self _
    · exact Nat.lt_succ_of_lt (h.lt x hx)
  · intro x hx y hy hxy
    rw [hbegun] at hx hy
    rcases List.mem_cons.mp hx with rfl | hx
    · rcases List.mem_cons.mp hy with rfl | hy
      · rfl
      · exact absurd hxy.symm (hnew y hy)
    · rcases List.mem_cons.mp hy with rfl | hy
      · exact absurd hxy (hnew x hx)
      · exact h.unique x hx y hy hxy
  · intro s' hs'
    rw [hbegun]
    rcases hs.session_of_mem hs' with ⟨s, hm, hid, hop⟩ | ⟨b', hstart⟩
    · obtain ⟨x, hx, hxid, hxop⟩ := h.opened s hm
      exact ⟨x, List.mem_cons_of_mem _ hx, hxid.trans hid, hxop.trans hop⟩
    · obtain ⟨hid, hop, -⟩ := Event.start.inj hstart
      exact ⟨_, List.mem_cons_self, hid, hop⟩
  · intro o' ho' sid hsid
    obtain ⟨⟨x, hx, hxid, hxop⟩, hclosed⟩ := h.ended o' (hmem o' ho' sid hsid) sid hsid
    refine ⟨⟨x, hbegun ▸ List.mem_cons_of_mem _ hx, hxid, hxop⟩, fun s' hs' => ?_⟩
    rcases hs.session_of_mem hs' with ⟨s, hm, hid, -⟩ | ⟨b', hstart⟩
    · exact hid ▸ hclosed s hm
    · obtain ⟨hid, -, -⟩ := Event.start.inj hstart
      rw [← hid, ← hxid]
      exact (hnew x hx).symm
  · intro o₁ h₁ o₂ h₂ sid hsid₁ hsid₂
    exact h.once o₁ (hmem o₁ h₁ sid hsid₁) o₂ (hmem o₂ h₂ sid hsid₂) sid hsid₁ hsid₂

theorem proceed (h : sv.Fresh) (hp : sv.proceed sem code sees same ev = some sv') : sv'.Fresh := by
  obtain ⟨hpermits, o, hs, hshown, hnext, hbegun⟩ := proceed_eq_some hp
  -- the moves of the database open no transaction
  have hkeep : ∀ s' ∈ sv'.db.sessions.rows,
      ∃ s ∈ sv.db.sessions.rows, s.id = s'.id ∧ s.op = s'.op := by
    intro s' hs'
    rcases hs.session_of_mem hs' with hm | ⟨b, rfl⟩
    · exact hm
    · exact hpermits.elim
  refine ⟨by rw [hbegun, hnext]; exact h.lt, by rw [hbegun]; exact h.unique, ?_, ?_, ?_⟩
  · intro s' hs'
    obtain ⟨s, hm, hid, hop⟩ := hkeep s' hs'
    obtain ⟨x, hx, hxid, hxop⟩ := h.opened s hm
    exact ⟨x, hbegun ▸ hx, hxid.trans hid, hxop.trans hop⟩
  · intro o' ho' sid hsid
    rw [hbegun]
    rw [hshown] at ho'
    rcases List.mem_append.mp ho' with ho' | ho'
    · obtain ⟨hx, hclosed⟩ := h.ended o' ho' sid hsid
      refine ⟨hx, fun s' hs' => ?_⟩
      obtain ⟨s, hm, hid, -⟩ := hkeep s' hs'
      exact hid ▸ hclosed s hm
    · obtain rfl := List.mem_singleton.mp ho'
      obtain ⟨⟨s, hm, rfl, hop⟩, hclosed⟩ := hs.session_of_sid hsid
      obtain ⟨x, hx, hxid, hxop⟩ := h.opened s hm
      exact ⟨⟨x, hx, hxid, hop.trans (congrArg some hxop.symm)⟩, hclosed⟩
  · -- the transaction was open, so nothing had ended under its number
    have hnew : ∀ p ∈ sv.shown, ∀ sid, p.sid? = some sid → o.sid? ≠ some sid := by
      intro p hp' sid hsid ho
      obtain ⟨⟨s, hm, hid, -⟩, -⟩ := hs.session_of_sid ho
      exact (h.ended p hp' sid hsid).2 s hm hid
    intro o₁ h₁ o₂ h₂ sid hsid₁ hsid₂
    rw [hshown] at h₁ h₂
    rcases List.mem_append.mp h₁ with hold | h₁
    · rcases List.mem_append.mp h₂ with h₂ | h₂
      · exact h.once o₁ hold o₂ h₂ sid hsid₁ hsid₂
      · obtain rfl := List.mem_singleton.mp h₂
        exact absurd hsid₂ (hnew o₁ hold sid hsid₁)
    · obtain rfl := List.mem_singleton.mp h₁
      rcases List.mem_append.mp h₂ with h₂ | h₂
      · exact absurd hsid₁ (hnew o₂ h₂ sid hsid₂)
      · exact (List.mem_singleton.mp h₂).symm

omit [DecidableEq K] in
theorem leave (h : sv.Fresh) (sids : List ℕ) : (sv.leave sids).Fresh := ⟨h.1, h.2, h.3, h.4, h.5⟩

omit [DecidableEq K] in
/-- What has ended under the number of a call, it has called. -/
theorem op_eq (h : sv.Fresh) {x : Begun key O} (hx : x ∈ sv.begun) {o : Output O B V A R Err}
    (ho : o ∈ sv.shown) (hsid : o.sid? = some x.sid) : o.op = some x.op := by
  obtain ⟨⟨y, hy, hid, hop⟩, -⟩ := h.ended o ho x.sid hsid
  rwa [h.unique y hy x hx hid] at hop

omit [DecidableEq K] in
/-- An open transaction serves the call of its number. -/
theorem session_op (h : sv.Fresh) {x : Begun key O} (hx : x ∈ sv.begun)
    {s : Session S Res O B V A R} (hs : s ∈ sv.db.sessions.rows) (hid : s.id = x.sid) :
    s.op = x.op := by
  obtain ⟨y, hy, hyid, hyop⟩ := h.opened s hs
  rw [← hyop, h.unique y hy x hx (hyid.trans hid)]

end Fresh

/-! ## Answers -/

omit [DecidableEq K] in
/-- An answer is the reply of the step that has ended the transaction. -/
theorem answer?_eq_some {sid : ℕ} {a : Option R} (h : sv.answer? sid = some a) :
    ∃ o ∈ sv.shown, o.sid? = some sid ∧ o.reply = a := by
  obtain ⟨o, ho, hreply⟩ := List.exists_of_findSome?_eq_some h
  split at hreply
  next hsid => exact ⟨o, ho, hsid, Option.some.inj hreply⟩
  · cases hreply

/-! ## Later states -/

/-- What has been shown and called stays so, and who has stopped waiting. -/
structure Extends (sv sv' : Server key A S Res O B R Err) : Prop where
  shown : ∃ os, sv'.shown = sv.shown ++ os
  begun : ∀ x ∈ sv.begun, x ∈ sv'.begun
  dropped : ∀ sid ∈ sv.dropped, sid ∈ sv'.dropped

namespace Extends

omit [DecidableEq K] in
theorem leave (sids : List ℕ) : sv.Extends (sv.leave sids) :=
  ⟨⟨[], (List.append_nil _).symm⟩, fun _ hx => hx, fun _ => List.mem_append_right _⟩

theorem call (h : sv.call sem code op b = some sv') : sv.Extends sv' := by
  obtain ⟨o, -, hshown, -, hbegun⟩ := call_eq_some h
  exact ⟨⟨[o], hshown⟩, fun x hx => hbegun ▸ List.mem_cons_of_mem _ hx,
    fun sid hsid => dropped_of_call h ▸ hsid⟩

theorem proceed (h : sv.proceed sem code sees same ev = some sv') : sv.Extends sv' := by
  obtain ⟨-, o, -, hshown, -, hbegun⟩ := proceed_eq_some h
  exact ⟨⟨[o], hshown⟩, fun x hx => hbegun ▸ hx, fun sid => (dropped_of_proceed h).mpr⟩

omit [DecidableEq K] in
theorem mem_shown (h : sv.Extends sv') {o : Output O B V A R Err} (ho : o ∈ sv.shown) :
    o ∈ sv'.shown := by
  obtain ⟨os, hos⟩ := h.shown
  exact hos ▸ List.mem_append_left _ ho

end Extends

end Server

end RowStore
