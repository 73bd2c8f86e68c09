import IronDefer.RowStore.Sessions

/-!
# A transaction running alone

What one transaction does from a given state while the others stand still: it begins, executes its
statements and ends. Nothing is published before its end, so its statements see the tables as they
were at its beginning, and its end is the only step that shows anything.

## Main definitions

* `Alone`: the moves of one transaction, up to its end
* `Going`: no transaction has ended yet

## Main results

* `Reaches.going`: until its end, the transaction leaves the tables and the other transactions as
  they are
* `Reaches.of_alone`: a run of the transaction is still going, or its last step has left the tables
  as they were, or it has published what its program has along its runs
-/

namespace RowStore

variable {K V A S B E Err O R : Type} [DecidableEq K] {Res : S → Type} {key : V → K}
  {sem : Semantics key A S Res B E Err} {code : O → Program S Res (Finish R)}

/-- No transaction has ended yet. -/
def Going (os : List (Output O B V A R Err)) : Prop := ∀ o ∈ os, o.ends = false

instance (os : List (Output O B V A R Err)) : Decidable (Going os) :=
  inferInstanceAs (Decidable (∀ o ∈ os, o.ends = false))

/-- The moves of the transaction `sid` for the call `op`, up to its end; `choice` restricts what its
statements are executed with. -/
def Alone (choice : Table key → E → Prop) (sid : ℕ) (op : O) (b : B)
    (os : List (Output O B V A R Err)) (db : Db key A S Res O B R) : Event O B E → Prop
  | .start s o b' => Going os ∧ s = sid ∧ o = op ∧ b' = b
  | .exec s e => Going os ∧ s = sid ∧ choice db.table e
  | .fault s | .finish s => Going os ∧ s = sid

instance (choice : Table key → E → Prop) [∀ t e, Decidable (choice t e)] [DecidableEq O]
    [DecidableEq B] (sid : ℕ) (op : O) (b : B) (os : List (Output O B V A R Err))
    (db : Db key A S Res O B R) : (ev : Event O B E) → Decidable (Alone choice sid op b os db ev)
  | .start s o b' => inferInstanceAs (Decidable (Going os ∧ s = sid ∧ o = op ∧ b' = b))
  | .exec s e => inferInstanceAs (Decidable (Going os ∧ s = sid ∧ choice db.table e))
  | .fault s | .finish s => inferInstanceAs (Decidable (Going os ∧ s = sid))

section Alone

variable {choice : Table key → E → Prop} {sid : ℕ} {op : O} {b : B}
  {os : List (Output O B V A R Err)} {db₀ db : Db key A S Res O B R} {ev : Event O B E}

omit [DecidableEq K] in
theorem Alone.isGoing (h : Alone choice sid op b os db ev) : Going os := by
  cases ev with
  | start => exact h.1
  | exec => exact h.1
  | fault => exact h.1
  | finish => exact h.1

theorem going_append_singleton {o : Output O B V A R Err} :
    Going (os ++ [o]) ↔ Going os ∧ o.ends = false := by
  constructor
  · intro h
    exact ⟨fun p hp => h p (List.mem_append_left _ hp), h o (by simp)⟩
  · rintro ⟨hos, ho⟩ p hp
    rcases List.mem_append.mp hp with hp | hp
    · exact hos p hp
    · obtain rfl := List.mem_singleton.mp hp
      exact ho

/-- What the others hold depends on the other sessions only. -/
theorem Db.free_congr {db' : Db key A S Res O B R}
    (h : ∀ s : Session S Res O B V A R, s.id ≠ sid → (s ∈ db'.sessions.rows ↔ s ∈ db.sessions.rows)) :
    db'.free sid = db.free sid := by
  have hheld : ∀ v, v ∈ db'.held sid ↔ v ∈ db.held sid := by
    intro v
    rw [mem_held, mem_held]
    constructor
    · rintro ⟨s, hs, hne, hv⟩
      exact ⟨s, (h s hne).mp hs, hne, hv⟩
    · rintro ⟨s, hs, hne, hv⟩
      exact ⟨s, (h s hne).mpr hs, hne, hv⟩
  ext k
  rw [Bool.eq_iff_iff, free_iff, free_iff]
  simp only [hheld]

/-- **Until its end, a transaction leaves the tables as they are**, and what the others hold. -/
theorem Reaches.going (h : Reaches (Db.step sem code) (Alone choice sid op b) db₀ os db)
    (hos : Going os) : db.table = db₀.table ∧ db.log = db₀.log ∧ db.free sid = db₀.free sid := by
  induction h with
  | init => exact ⟨rfl, rfl, rfl⟩
  | next hr hok hs ih =>
    obtain ⟨hos, ho⟩ := going_append_singleton.mp hos
    obtain ⟨ht, hl, hf⟩ := ih hos
    -- only the session of the transaction itself is written
    have hput : ∀ (db' : Db key A S Res O B R) (s s' : Session S Res O B V A R), s.id = sid →
        s'.id ≠ sid → (s' ∈ (db'.sessions.put s).rows ↔ s' ∈ db'.sessions.rows) := by
      rintro db' s s' rfl hne
      rw [Table.mem_put]
      exact ⟨fun h => h.elim (fun h => absurd (h ▸ rfl) hne) And.left, fun h => .inr ⟨h, hne.symm⟩⟩
    cases Db.step_iff.mp hs with
    | start =>
      obtain ⟨-, rfl, -, -⟩ := hok
      exact ⟨ht, hl, (Db.free_congr fun s hne => hput _ _ s rfl hne).trans hf⟩
    | exec hm =>
      obtain ⟨-, rfl, -⟩ := hok
      refine ⟨ht, hl, (Db.free_congr fun s hne => ?_).trans hf⟩
      refine hput _ _ s ?_ hne
      rfl
    | _ => cases ho

variable {J : List (Change V) → List A → Prop} {Q : List (Change V) → List A → Finish R → Prop}

/-- What the program has along every run from the first state, the transaction meets. -/
theorem Reaches.alone_meets (hJ : J [] [])
    (hp : (code op).Along sem b
      (fun t free e => t = db₀.table ∧ free = db₀.free sid ∧ choice t e) J Q [] [])
    (hx : db₀.Exclusive) (hopen : ∀ s ∈ db₀.sessions.rows, s.id ≠ sid)
    (h : Reaches (Db.step sem code) (Alone choice sid op b) db₀ os db) :
    ∀ o ∈ os, o.Meets (fun op' b' cs ls fin => op' = op ∧ b' = b ∧ J cs ls ∧ Q cs ls fin)
      fun s => s = sid := by
  have hproved : Proved sem code (Alone choice sid op b) db₀
      (fun t free e => t = db₀.table ∧ free = db₀.free sid ∧ choice t e) J
      (fun op' b' cs ls fin => op' = op ∧ b' = b ∧ J cs ls ∧ Q cs ls fin) fun s => s = sid :=
    { init := hJ
      programs := by
        rintro os db s o b' ⟨-, -, rfl, rfl⟩ -
        exact (hp.invariant hJ).mono fun cs ls fin h => ⟨rfl, rfl, h⟩
      within := by
        rintro os db s e hr ⟨hgoing, rfl, he⟩ -
        obtain ⟨ht, -, hf⟩ := hr.going hgoing
        exact ⟨ht, hf, he⟩
      exclusive := hx
      sound := fun s hs hid => absurd hid (hopen s hs) }
  exact meets hproved h

/-- **A transaction alone is still going, or it has ended**: without a commit it has left the tables
as they were, with a commit it has published what its program has along its runs. -/
theorem Reaches.of_alone (hJ : J [] [])
    (hp : (code op).Along sem b
      (fun t free e => t = db₀.table ∧ free = db₀.free sid ∧ choice t e) J Q [] [])
    (hx : db₀.Exclusive) (hopen : ∀ s ∈ db₀.sessions.rows, s.id ≠ sid)
    (h : Reaches (Db.step sem code) (Alone choice sid op b) db₀ os db) :
    Going os ∨ ∃ ps o, os = ps ++ [o] ∧ Going ps ∧
      (o.commits = false ∧ db.table = db₀.table ∧ db.log = db₀.log ∨
        ∃ cs ls r, o = .committed sid op b cs ls r ∧ cs = db₀.table.record (news cs) ∧
          db.table = db₀.table.putAll (news cs) ∧ db.log = db₀.log ++ ls ∧
          J cs (ls.map Prod.snd) ∧ Q cs (ls.map Prod.snd) (.commit r)) := by
  have hmeets := h.alone_meets hJ hp hx hopen
  cases h with
  | init => exact .inl fun o ho => by cases ho
  | @next ps db' ev _ o hr hok hs =>
    obtain ⟨ht, hl, -⟩ := hr.going hok.isGoing
    by_cases ho : o.ends = false
    · exact .inl (going_append_singleton.mpr ⟨hok.isGoing, ho⟩)
    · refine .inr ⟨ps, o, rfl, hok.isGoing, ?_⟩
      -- a step that ends the transaction is its commit, or it leaves the tables
      cases Db.step_iff.mp hs with
      | @commit s r hm hrest =>
        obtain ⟨-, rfl⟩ := hok
        obtain ⟨hop, hb, hJ, hQ⟩ := hmeets _ (List.mem_append_right _ List.mem_cons_self) rfl
        refine .inr ⟨db'.table.record s.news, s.logs, r, by rw [hop, hb], ?_, ?_, ?_, hJ, hQ⟩
        · rw [Table.news_record, ht]
        · rw [Table.news_record, ← ht]
          rfl
        · rw [← hl]
          rfl
      | start => exact absurd rfl ho
      | exec => exact absurd rfl ho
      | _ => exact .inl ⟨rfl, ht, hl⟩

end Alone

end RowStore
