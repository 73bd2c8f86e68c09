import IronDefer.RowStore.Sessions

/-!
# The span of a transaction

From its begin to its end a transaction executes its statements among the moves of others, which do
not touch its session. The instants of the span are the states the database passes through, and each
statement is executed at one of them.

## Main definitions

* `Event.sid`: the transaction that makes a move
* `run_append`, `Passes`: the states a list of events passes through
* `Db.Spans`: a transaction goes on over a list of moves, and ends

## Main results

* `Db.get_of_run`: others do not touch the session of a transaction
* `Db.Spans.of_stmt`: a transaction with a statement to execute executes it, among moves of others
* `Db.Spans.of_pure`: a transaction whose program has returned makes no more moves, and ends so
* `Db.Spans.of_endsIn`: a transaction replies as its program ends
-/

namespace RowStore

/-! ## Passing through states -/

section Passes

variable {σ ε ω : Type} {step : σ → ε → Option (σ × ω)} {s t : σ} {es fs : List ε} {os : List ω}

theorem run_append (h : run step s es = some (t, os)) :
    run step s (es ++ fs) = (run step t fs).map fun r => (r.1, os ++ r.2) := by
  induction es generalizing s os with
  | nil =>
    cases h
    simp
  | cons e es ih =>
    obtain ⟨⟨s', o⟩, hs, h⟩ := Option.bind_eq_some_iff.mp h
    obtain ⟨⟨t', ps⟩, hr, h⟩ := Option.map_eq_some_iff.mp h
    cases h
    simp [run, hs, ih hr, Option.map_map, Function.comp_def]

theorem run_of_append (h : run step s (es ++ fs) = some (t, os)) :
    ∃ s' ps qs, run step s es = some (s', ps) ∧ run step s' fs = some (t, qs) ∧ os = ps ++ qs := by
  induction es generalizing s os with
  | nil => exact ⟨s, [], os, rfl, h, rfl⟩
  | cons e es ih =>
    obtain ⟨⟨s₁, o⟩, hs, h⟩ := Option.bind_eq_some_iff.mp h
    obtain ⟨⟨t', ps⟩, hr, h⟩ := Option.map_eq_some_iff.mp h
    cases h
    obtain ⟨s', qs, rs, hqs, hrs, rfl⟩ := ih hr
    exact ⟨s', o :: qs, rs, by simp [run, hs, hqs], hrs, rfl⟩

/-- The events lead from `s` through a state with `P`. -/
def Passes (step : σ → ε → Option (σ × ω)) (s : σ) (es : List ε) (P : σ → Prop) : Prop :=
  ∃ xs ys t os, es = xs ++ ys ∧ run step s xs = some (t, os) ∧ P t

theorem Passes.of_run {P : σ → Prop} (h : run step s es = some (t, os)) (ht : P t) :
    Passes step s (es ++ fs) P := ⟨es, fs, t, os, rfl, h, ht⟩

end Passes

variable {K V A S B E Err O R : Type} [DecidableEq K] {Res : S → Type} {key : V → K}
  {sem : Semantics key A S Res B E Err} {code : O → Program S Res (Finish R)}

/-- The transaction that makes a move. -/
def Event.sid : Event O B E → ℕ
  | .start sid _ _ | .exec sid _ | .fault sid | .finish sid => sid

namespace Table

variable {K V : Type} [DecidableEq K] {key : V → K}

theorem get_erase (t : Table key) (k k' : K) :
    (t.erase k).get k' = if k = k' then none else t.get k' := by
  split
  next h =>
    subst h
    exact get_eq_none_iff.mpr fun v hv => (mem_erase.mp hv).2
  next h =>
    cases hg : t.get k' with
    | none =>
      exact get_eq_none_iff.mpr fun v hv => get_eq_none_iff.mp hg v (mem_erase.mp hv).1
    | some v =>
      obtain ⟨hv, rfl⟩ := get_eq_some hg
      exact get_key_of_mem (mem_erase.mpr ⟨hv, Ne.symm h⟩)

end Table

namespace Db

variable {db d db' : Db key A S Res O B R} {ev : Event O B E} {o : Output O B V A R Err} {sid : ℕ}
  {s : Session S Res O B V A R} {evs : List (Event O B E)} {os : List (Output O B V A R Err)}

/-! ## The moves of others -/

/-- Others do not touch the session of a transaction. -/
theorem get_of_step (hs : db.Step sem code ev db' o) (hne : ev.sid ≠ sid) :
    db'.sessions.get sid = db.sessions.get sid := by
  cases hs with
  | start => exact Table.get_put_ne _ hne
  | exec => exact Table.get_put_ne _ hne
  | reject => exact (Table.get_erase ..).trans (if_neg hne)
  | fault => exact (Table.get_erase ..).trans (if_neg hne)
  | commit => exact (Table.get_erase ..).trans (if_neg hne)
  | rollback => exact (Table.get_erase ..).trans (if_neg hne)
  | unwind => exact (Table.get_erase ..).trans (if_neg hne)

theorem get_of_run (hr : run (Db.step sem code) db evs = some (db', os))
    (hne : ∀ ev ∈ evs, ev.sid ≠ sid) : db'.sessions.get sid = db.sessions.get sid := by
  induction evs generalizing db os with
  | nil =>
    cases hr
    rfl
  | cons ev evs ih =>
    obtain ⟨⟨db₁, o⟩, hs, hr⟩ := Option.bind_eq_some_iff.mp hr
    obtain ⟨⟨db₂, ps⟩, hrest, hdb⟩ := Option.map_eq_some_iff.mp hr
    obtain rfl : db₂ = db' := congrArg Prod.fst hdb
    rw [ih hrest fun ev hev => hne ev (List.mem_cons_of_mem _ hev)]
    exact get_of_step (step_iff.mp hs) (hne ev List.mem_cons_self)

/-! ## Spans -/

/-- A transaction that has begun has all its statements left. -/
theorem get_of_start {op : O} {b : B}
    (h : db.step sem code (.start sid op b) = some (db', o)) :
    db'.sessions.get sid = some ⟨sid, op, b, code op, [], []⟩ := by
  simp only [step] at h
  split at h
  · cases h
  · cases h
    exact Table.get_put_self ..

/-- The transaction `sid` goes on over the moves `evs`, those of others included, and then ends: of
its own moves they contain the execution of statements only. -/
structure Spans (sem : Semantics key A S Res B E Err) (code : O → Program S Res (Finish R))
    (sid : ℕ) (db : Db key A S Res O B R) (evs : List (Event O B E)) (d db' : Db key A S Res O B R)
    (o : Output O B V A R Err) : Prop where
  own : ∀ ev ∈ evs, ev.sid = sid → ∃ e, ev = .exec sid e
  ran : ∃ os, run (Db.step sem code) db evs = some (d, os)
  ended : d.step sem code (.finish sid) = some (db', o)

/-- A list of moves up to the first move of a transaction. -/
theorem exists_first (sid : ℕ) (evs : List (Event O B E)) :
    (∀ ev ∈ evs, ev.sid ≠ sid) ∨
      ∃ xs ev ys, evs = xs ++ ev :: ys ∧ ev.sid = sid ∧ ∀ ev ∈ xs, ev.sid ≠ sid := by
  induction evs with
  | nil => exact .inl fun ev hev => absurd hev List.not_mem_nil
  | cons ev evs ih =>
    by_cases hev : ev.sid = sid
    · exact .inr ⟨[], ev, evs, rfl, hev, fun _ hx => absurd hx List.not_mem_nil⟩
    · rcases ih with hall | ⟨xs, ev', ys, rfl, hev', hxs⟩
      · exact .inl (List.forall_mem_cons.mpr ⟨hev, hall⟩)
      · exact .inr ⟨ev :: xs, ev', ys, rfl, hev', List.forall_mem_cons.mpr ⟨hev, hxs⟩⟩

/-- The first move of a transaction in a list is one only. -/
theorem first_unique {xs ys xs' ys' : List (Event O B E)} {ev ev' : Event O B E}
    (h : xs ++ ev :: ys = xs' ++ ev' :: ys') (hev : ev.sid = sid) (hev' : ev'.sid = sid)
    (hxs : ∀ ev ∈ xs, ev.sid ≠ sid) (hxs' : ∀ ev ∈ xs', ev.sid ≠ sid) :
    xs = xs' ∧ ev = ev' ∧ ys = ys' := by
  induction xs generalizing xs' with
  | nil =>
    cases xs' with
    | nil => simpa using h
    | cons x xs' =>
      obtain ⟨rfl, -⟩ := List.cons.inj h
      exact absurd hev (hxs' _ List.mem_cons_self)
  | cons x xs ih =>
    cases xs' with
    | nil =>
      obtain ⟨rfl, -⟩ := List.cons.inj h
      exact absurd hev' (hxs _ List.mem_cons_self)
    | cons x' xs' =>
      obtain ⟨rfl, hrest⟩ := List.cons.inj h
      obtain ⟨rfl, rfl, rfl⟩ := ih hrest (fun ev hm => hxs ev (List.mem_cons_of_mem _ hm))
        fun ev hm => hxs' ev (List.mem_cons_of_mem _ hm)
      exact ⟨rfl, rfl, rfl⟩

/-- Where the session is gone, the transaction makes no move, and does not end. -/
theorem not_spans_of_get_none (hs : db.sessions.get sid = none) :
    ¬ Spans sem code sid db evs d db' o := by
  rintro ⟨hown, ⟨os, hr⟩, hend⟩
  rcases exists_first sid evs with hall | ⟨xs, ev, ys, rfl, hsid, hxs⟩
  · have hd : d.sessions.get sid = none := (get_of_run hr hall).trans hs
    simp [step, hd] at hend
  · obtain ⟨db₁, ps, qs, hx, hy, -⟩ := run_of_append hr
    obtain ⟨⟨db₂, p⟩, hstep, -⟩ := Option.bind_eq_some_iff.mp hy
    have hd : db₁.sessions.get sid = none := (get_of_run hx hxs).trans hs
    obtain ⟨e, rfl⟩ := hown ev (by simp) hsid
    simp [step, hd] at hstep

/-- **A transaction with a statement to execute executes it**, at an instant that moves of others
have led to. -/
theorem Spans.of_stmt (h : Spans sem code sid db evs d db' o) (hs : db.sessions.get sid = some s)
    {q : S} {k : Res q → Program S Res (Finish R)} (hr : s.rest = .stmt q k) :
    ∃ xs e ys d₁ os eff, evs = xs ++ .exec sid e :: ys ∧ (∀ ev ∈ xs, ev.sid ≠ sid) ∧
      run (Db.step sem code) db xs = some (d₁, os) ∧
      run (Db.step sem code) db (xs ++ [.exec sid e]) = some (d₁.advance s k eff, os ++ [.silent]) ∧
      d₁.sessions.get sid = some s ∧
      sem.exec q s.began e (d₁.view s).rows (d₁.free sid) = .ok eff ∧
      (d₁.advance s k eff).sessions.get sid =
        some { s with
          rest := k eff.result
          news := s.news ++ eff.news
          logs := s.logs ++ numbered d₁.nextId eff.logs } ∧
      Spans sem code sid (d₁.advance s k eff) ys d db' o := by
  obtain ⟨hown, ⟨os, hrun⟩, hend⟩ := h
  have hid : s.id = sid := (Table.get_eq_some hs).2
  rcases exists_first sid evs with hall | ⟨xs, ev, ys, rfl, hsid, hxs⟩
  · have hd : d.sessions.get sid = some s := (get_of_run hrun hall).trans hs
    simp [step, hd, hr] at hend
  · obtain ⟨d₁, ps, qs, hx, hy, -⟩ := run_of_append hrun
    obtain ⟨⟨d₂, p⟩, hstep, hy⟩ := Option.bind_eq_some_iff.mp hy
    obtain ⟨⟨d₃, rs⟩, hrest, hd⟩ := Option.map_eq_some_iff.mp hy
    obtain rfl : d = d₃ := (congrArg Prod.fst hd).symm
    obtain ⟨e, rfl⟩ := hown ev (by simp) hsid
    have hd₁ : d₁.sessions.get sid = some s := (get_of_run hx hxs).trans hs
    have hspans : Spans sem code sid d₂ ys d db' o :=
      ⟨fun ev hev => hown ev (by simp [hev]), ⟨rs, hrest⟩, hend⟩
    have hone : run (Db.step sem code) d₁ [.exec sid e] = some (d₂, [p]) := by simp [run, hstep]
    have hstep' := hstep
    simp only [step, hd₁, hr] at hstep
    split at hstep
    · cases hstep
    · cases hexec : sem.exec q s.began e (d₁.view s).rows (d₁.free sid) with
      | error err =>
        -- a refused statement ends the transaction
        rw [hexec] at hstep
        cases hstep
        refine absurd hspans (not_spans_of_get_none ?_)
        exact (Table.get_erase ..).trans (if_pos rfl)
      | ok eff =>
        rw [hexec] at hstep
        dsimp only at hstep
        split at hstep
        · cases hstep
          refine ⟨xs, e, ys, d₁, ps, eff, rfl, hxs, hx, ?_, hd₁, hexec, ?_, hspans⟩
          · simp [run_append hx, hone]
          · subst hid
            exact Table.get_put_self ..
        · cases hstep

/-- A transaction without a statement left to execute makes no more moves. -/
theorem Spans.own_nil (h : Spans sem code sid db evs d db' o) (hs : db.sessions.get sid = some s)
    (hr : ∀ q k, s.rest ≠ .stmt q k) :
    (∀ ev ∈ evs, ev.sid ≠ sid) ∧ d.sessions.get sid = some s := by
  obtain ⟨hown, ⟨os, hrun⟩, -⟩ := h
  rcases exists_first sid evs with hall | ⟨xs, ev, ys, rfl, hsid, hxs⟩
  · exact ⟨hall, (get_of_run hrun hall).trans hs⟩
  · exfalso
    obtain ⟨d₁, ps, qs, hx, hy, -⟩ := run_of_append hrun
    obtain ⟨⟨d₂, p⟩, hstep, -⟩ := Option.bind_eq_some_iff.mp hy
    obtain ⟨e, rfl⟩ := hown ev (by simp) hsid
    have hd₁ : d₁.sessions.get sid = some s := (get_of_run hx hxs).trans hs
    cases hrest : s.rest with
    | pure fin => simp [step, hd₁, hrest] at hstep
    | unwind => simp [step, hd₁, hrest] at hstep
    | stmt q k => exact hr q k hrest

/-- **A transaction whose program has returned makes no more moves**, and replies so. -/
theorem Spans.of_pure (h : Spans sem code sid db evs d db' o) (hs : db.sessions.get sid = some s)
    {fin : Finish R} (hr : s.rest = .pure fin) :
    (∀ ev ∈ evs, ev.sid ≠ sid) ∧ o.reply = some fin.reply := by
  obtain ⟨hall, hd⟩ := h.own_nil hs fun q k hstmt => by simp [hr] at hstmt
  refine ⟨hall, ?_⟩
  obtain ⟨-, -, hend⟩ := h
  cases fin with
  | commit r =>
    simp only [step, hd, hr] at hend
    cases hend
    rfl
  | rollback r =>
    simp only [step, hd, hr] at hend
    cases hend
    rfl

/-- A transaction that unwinds has no reply. -/
theorem Spans.of_unwind (h : Spans sem code sid db evs d db' o) (hs : db.sessions.get sid = some s)
    (hr : s.rest = .unwind) : o.reply = none := by
  obtain ⟨-, hd⟩ := h.own_nil hs fun q k hstmt => by simp [hr] at hstmt
  obtain ⟨-, -, hend⟩ := h
  simp only [step, hd, hr] at hend
  cases hend
  rfl

/-- **A transaction replies as its program ends**, whatever the results of its statements. -/
theorem Spans.of_endsIn {good : Finish R → Prop} {p : Program S Res (Finish R)}
    (h : Spans sem code sid db evs d db' o) (hs : db.sessions.get sid = some s) (hr : s.rest = p)
    (hp : p.EndsIn (fun _ _ => True) good) :
    o.reply = none ∨ ∃ fin, o.reply = some fin.reply ∧ good fin := by
  induction p generalizing db s evs with
  | pure fin => exact .inr ⟨fin, (h.of_pure hs hr).2, hp⟩
  | unwind => exact .inl (h.of_unwind hs hr)
  | stmt q k ih =>
    obtain ⟨_, _, ys, d₁, _, eff, -, -, -, -, -, -, hs', hspan⟩ := h.of_stmt hs hr
    exact ih eff.result hspan hs' rfl (hp eff.result trivial)

end Db

end RowStore
