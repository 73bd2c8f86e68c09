import IronDefer.RowStore.Database
import IronDefer.RowStore.Runs
import Mathlib.Data.List.Forall2
import Mathlib.Data.Option.Basic

/-!
# Databases in lockstep

Two programs that send the same statements and differ in what they reply take a database through
the same states. `Alike ρ` relates programs statement by statement and their replies by `ρ`; the
runs of related calls on one schedule show the same changes and log rows, and related replies.

## Main definitions

* `Program.Alike`: the same statements, and related ends
* `Db.Alike`, `Event.Alike`, `Output.Alike`: the relation on databases, events and outputs

## Main results

* `Db.Alike.step`: related databases take related steps
* `Db.Alike.run`: **one schedule of related calls shows related outputs**
-/

namespace RowStore

variable {K V A S B E Err O R : Type} [DecidableEq K] {Res : S → Type} {key : V → K}

/-- The ends of two transactions: both commit or both roll back, with related replies. -/
inductive Finish.Alike (ρ : R → R → Prop) : Finish R → Finish R → Prop
  | commit {r r'} : ρ r r' → Alike ρ (.commit r) (.commit r')
  | rollback {r r'} : ρ r r' → Alike ρ (.rollback r) (.rollback r')

/-- Two programs send the same statements, whatever their results, and end in related values. -/
inductive Program.Alike {α β : Type} (ρ : α → β → Prop) :
    Program S Res α → Program S Res β → Prop
  | pure {a b} : ρ a b → Alike ρ (.pure a) (.pure b)
  | unwind : Alike ρ .unwind .unwind
  | stmt {s k k'} : (∀ r, Alike ρ (k r) (k' r)) → Alike ρ (.stmt s k) (.stmt s k')

namespace Program

theorem Alike.refl {α : Type} {ρ : α → α → Prop} (hρ : ∀ a, ρ a a) (p : Program S Res α) :
    p.Alike ρ p := by
  induction p with
  | pure a => exact .pure (hρ a)
  | unwind => exact .unwind
  | stmt s k ih => exact .stmt ih

/-- A program continued in two ways. -/
theorem Alike.bind {α β γ : Type} {ρ : β → γ → Prop} (p : Program S Res α)
    {f : α → Program S Res β} {g : α → Program S Res γ} (h : ∀ a, (f a).Alike ρ (g a)) :
    (p >>= f).Alike ρ (p >>= g) := by
  induction p with
  | pure a => exact h a
  | unwind => exact .unwind
  | stmt s k ih => exact .stmt ih

end Program

variable (σ : O → O → Prop) (ρ : O → O → R → R → Prop)

/-- Two transactions that have done the same and have related programs left. -/
structure Session.Alike (s s' : Session S Res O B V A R) : Prop where
  id : s'.id = s.id
  op : σ s.op s'.op
  began : s'.began = s.began
  rest : s.rest.Alike (Finish.Alike (ρ s.op s'.op)) s'.rest
  news : s'.news = s.news
  logs : s'.logs = s.logs

/-- Two databases with the same rows and log rows and related transactions. -/
structure Db.Alike (db db' : Db key A S Res O B R) : Prop where
  table : db'.table = db.table
  log : db'.log = db.log
  nextId : db'.nextId = db.nextId
  sessions : List.Forall₂ (Session.Alike σ ρ) db.sessions.rows db'.sessions.rows

/-- The same step on the schedule, of related calls. -/
inductive Event.Alike : Event O B E → Event O B E → Prop
  | start {sid op op' b} : σ op op' → Alike (.start sid op b) (.start sid op' b)
  | exec {sid e} : Alike (.exec sid e) (.exec sid e)
  | fault {sid} : Alike (.fault sid) (.fault sid)
  | finish {sid} : Alike (.finish sid) (.finish sid)

/-- The same changes and log rows, and related replies to related calls. -/
inductive Output.Alike : Output O B V A R Err → Output O B V A R Err → Prop
  | silent : Alike .silent .silent
  | failed {sid op op' err} : σ op op' → Alike (.failed sid op err) (.failed sid op' err)
  | returned {sid op op' b r r'} : σ op op' → ρ op op' r r' →
      Alike (.returned sid op b r) (.returned sid op' b r')
  | committed {sid op op' b cs ls r r'} : σ op op' → ρ op op' r r' →
      Alike (.committed sid op b cs ls r) (.committed sid op' b cs ls r')

namespace Db

variable {σ ρ} {sem : Semantics key A S Res B E Err} {code : O → Program S Res (Finish R)}
  {db db' : Db key A S Res O B R}

omit [DecidableEq K] in
theorem alike_idle (t : Table key) (log : List (ℕ × A)) (n : ℕ) :
    (idle t log n : Db key A S Res O B R).Alike σ ρ (idle t log n) := ⟨rfl, rfl, rfl, .nil⟩

/-! ## Sessions -/

theorem find?_alike {ss ss' : List (Session S Res O B V A R)}
    (h : List.Forall₂ (Session.Alike σ ρ) ss ss') (sid : ℕ) :
    Option.Rel (Session.Alike σ ρ) (ss.find? fun s => decide (s.id = sid))
      (ss'.find? fun s => decide (s.id = sid)) := by
  induction h with
  | nil => exact .none
  | @cons s s' ss ss' hs _ ih =>
    by_cases hid : s.id = sid
    · simpa [hid, hs.id.trans hid] using hs
    · have hid' : s'.id ≠ sid := fun heq => hid (hs.id.symm.trans heq)
      simpa [hid, hid'] using ih

theorem filter_alike {ss ss' : List (Session S Res O B V A R)}
    (h : List.Forall₂ (Session.Alike σ ρ) ss ss') (sid : ℕ) :
    List.Forall₂ (Session.Alike σ ρ) (ss.filter fun s => decide (s.id ≠ sid))
      (ss'.filter fun s => decide (s.id ≠ sid)) := by
  induction h with
  | nil => exact .nil
  | @cons s s' ss ss' hs _ ih =>
    by_cases hid : s.id = sid
    · rw [List.filter_cons_of_neg (by simp [hid]), List.filter_cons_of_neg
        (by simp [hs.id.trans hid])]
      exact ih
    · have hid' : s'.id ≠ sid := fun heq => hid (hs.id.symm.trans heq)
      rw [List.filter_cons_of_pos (by simp [hid]), List.filter_cons_of_pos (by simp [hid'])]
      exact .cons hs ih

theorem writeRow_alike {ss ss' : List (Session S Res O B V A R)}
    (h : List.Forall₂ (Session.Alike σ ρ) ss ss') {s s' : Session S Res O B V A R}
    (hs : s.Alike σ ρ s') :
    List.Forall₂ (Session.Alike σ ρ) (writeRow Session.id s ss) (writeRow Session.id s' ss') := by
  induction h with
  | nil => exact .cons hs .nil
  | @cons a a' ss ss' ha htail ih =>
    by_cases hid : a.id = s.id
    · have hid' : a'.id = s'.id := by rw [ha.id, hs.id, hid]
      simpa [writeRow, hid, hid'] using ⟨hs, htail⟩
    · have hid' : a'.id ≠ s'.id := fun heq => hid (ha.id.symm.trans (heq.trans hs.id))
      simpa [writeRow, hid, hid'] using ⟨ha, ih⟩

omit [DecidableEq K] in
theorem Alike.get (h : db.Alike σ ρ db') (sid : ℕ) :
    Option.Rel (Session.Alike σ ρ) (db.sessions.get sid) (db'.sessions.get sid) :=
  find?_alike h.sessions sid

theorem Alike.held (h : db.Alike σ ρ db') (sid : ℕ) : db'.held sid = db.held sid := by
  have hothers := filter_alike h.sessions sid
  have hrows : ∀ ss ss' : List (Session S Res O B V A R),
      List.Forall₂ (Session.Alike σ ρ) ss ss' →
        (ss'.flatMap fun s => (s.own key).rows) = ss.flatMap fun s => (s.own key).rows := by
    intro ss ss' hss
    induction hss with
    | nil => rfl
    | cons hs _ ih =>
      rw [List.flatMap_cons, List.flatMap_cons, ih, Session.own, Session.own, hs.news]
  exact hrows _ _ hothers

theorem Alike.free (h : db.Alike σ ρ db') (sid : ℕ) : db'.free sid = db.free sid := by
  ext k
  rw [Db.free, Db.free, h.held]

theorem Alike.view (h : db.Alike σ ρ db') {s s' : Session S Res O B V A R} (hs : s.Alike σ ρ s') :
    db'.view s' = db.view s := by
  rw [Db.view, Db.view, h.table, hs.news]

omit [DecidableEq K] in
theorem Alike.drop (h : db.Alike σ ρ db') (sid : ℕ) : (db.drop sid).Alike σ ρ (db'.drop sid) :=
  ⟨h.table, h.log, h.nextId, filter_alike h.sessions sid⟩

omit [DecidableEq K] in
theorem Alike.put (h : db.Alike σ ρ db') {s s' : Session S Res O B V A R} (hs : s.Alike σ ρ s') :
    Alike σ ρ { db with sessions := db.sessions.put s } { db' with sessions := db'.sessions.put s' } :=
  ⟨h.table, h.log, h.nextId, writeRow_alike h.sessions hs⟩

theorem Alike.publish (h : db.Alike σ ρ db') {s s' : Session S Res O B V A R}
    (hs : s.Alike σ ρ s') : (db.publish s).Alike σ ρ (db'.publish s') where
  table := h.view hs
  log := by rw [Db.publish, Db.publish, h.log, hs.logs]
  nextId := h.nextId
  sessions := by
    have hfilter := filter_alike h.sessions s.id
    change List.Forall₂ _ (db.sessions.erase s.id).rows (db'.sessions.erase s'.id).rows
    rw [hs.id]
    exact hfilter

omit [DecidableEq K] in
theorem Alike.advance (h : db.Alike σ ρ db') {s s' : Session S Res O B V A R} (hs : s.Alike σ ρ s')
    {q : S} {k k' : Res q → Program S Res (Finish R)} (eff : Effect V A (Res q))
    (hk : (k eff.result).Alike (Finish.Alike (ρ s.op s'.op)) (k' eff.result)) :
    (db.advance s k eff).Alike σ ρ (db'.advance s' k' eff) where
  table := h.table
  log := h.log
  nextId := by rw [Db.advance, Db.advance, h.nextId]
  sessions := by
    refine writeRow_alike h.sessions ⟨hs.id, hs.op, hs.began, hk, ?_, ?_⟩
    · rw [hs.news]
    · rw [hs.logs, h.nextId]

/-! ## Steps and runs -/

/-- What a step leads to and shows. -/
def StepAlike (σ : O → O → Prop) (ρ : O → O → R → R → Prop) :
    Db key A S Res O B R × Output O B V A R Err → Db key A S Res O B R × Output O B V A R Err → Prop :=
  fun x y => x.1.Alike σ ρ y.1 ∧ x.2.Alike σ ρ y.2

/-- **Related databases take related steps.** -/
theorem Alike.step (h : db.Alike σ ρ db')
    (hcode : ∀ op op', σ op op' → (code op).Alike (Finish.Alike (ρ op op')) (code op'))
    {ev ev' : Event O B E} (hev : ev.Alike σ ev') :
    Option.Rel (StepAlike σ ρ) (db.step sem code ev) (db'.step sem code ev') := by
  -- every step looks its session up first: both databases have it, or neither does
  cases hev with
  | @start sid op op' b hop =>
    have hget := h.get sid
    simp only [Db.step]
    generalize db.sessions.get sid = x at hget
    generalize db'.sessions.get sid = y at hget
    cases hget with
    | some => exact .none
    | none => exact .some ⟨h.put ⟨rfl, hop, rfl, hcode op op' hop, rfl, rfl⟩, .silent⟩
  | @exec sid e =>
    have hget := h.get sid
    simp only [Db.step]
    generalize db.sessions.get sid = x at hget
    generalize db'.sessions.get sid = y at hget
    cases hget with
    | none => exact .none
    | @some s s' hs =>
      have hrest := hs.rest
      simp only [h.view hs, h.free, h.held, hs.began]
      generalize s.rest = p at hrest
      generalize s'.rest = p' at hrest
      cases hrest with
      | pure => exact .none
      | unwind => exact .none
      | @stmt q k k' hk =>
        simp only
        split
        · exact .none
        · split
          next err _ =>
            refine .some ⟨h.drop sid, ?_⟩
            rw [hs.id]
            exact .failed hs.op
          next eff _ =>
            split
            · exact .some ⟨h.advance hs eff (hk eff.result), .silent⟩
            · exact .none
  | @fault sid =>
    have hget := h.get sid
    simp only [Db.step]
    generalize db.sessions.get sid = x at hget
    generalize db'.sessions.get sid = y at hget
    cases hget with
    | none => exact .none
    | @some s s' hs =>
      refine .some ⟨h.drop sid, ?_⟩
      rw [hs.id]
      exact .failed hs.op
  | @finish sid =>
    have hget := h.get sid
    simp only [Db.step]
    generalize db.sessions.get sid = x at hget
    generalize db'.sessions.get sid = y at hget
    cases hget with
    | none => exact .none
    | @some s s' hs =>
      have hrest := hs.rest
      simp only [h.table, hs.news, hs.logs, hs.id, hs.began]
      generalize s.rest = p at hrest
      generalize s'.rest = p' at hrest
      cases hrest with
      | pure hfin =>
        cases hfin with
        | commit hr => exact .some ⟨h.publish hs, .committed hs.op hr⟩
        | rollback hr => exact .some ⟨h.drop sid, .returned hs.op hr⟩
      | unwind => exact .some ⟨h.drop sid, .failed hs.op⟩
      | stmt => exact .none

/-- **One schedule of related calls shows related outputs.** -/
theorem Alike.run (h : db.Alike σ ρ db')
    (hcode : ∀ op op', σ op op' → (code op).Alike (Finish.Alike (ρ op op')) (code op'))
    {evs evs' : List (Event O B E)} (hevs : List.Forall₂ (Event.Alike σ) evs evs') :
    Option.Rel (fun x y => x.1.Alike σ ρ y.1 ∧ List.Forall₂ (Output.Alike σ ρ) x.2 y.2)
      (RowStore.run (Db.step sem code) db evs) (RowStore.run (Db.step sem code) db' evs') := by
  induction hevs generalizing db db' with
  | nil => exact .some ⟨h, .nil⟩
  | @cons ev ev' evs evs' hev _ ih =>
    have hstep : Option.Rel (StepAlike σ ρ) (db.step sem code ev) (db'.step sem code ev') :=
      h.step hcode hev
    simp only [RowStore.run]
    generalize db.step sem code ev = x at hstep
    generalize db'.step sem code ev' = y at hstep
    cases hstep with
    | none => exact .none
    | @some x y hxy =>
      have hrest := ih hxy.1
      simp only [Option.bind_some]
      generalize RowStore.run (Db.step sem code) x.1 evs = u at hrest
      generalize RowStore.run (Db.step sem code) y.1 evs' = v at hrest
      cases hrest with
      | none => exact .none
      | some huv => exact .some ⟨huv.1, .cons hxy.2 huv.2⟩

end Db

end RowStore
