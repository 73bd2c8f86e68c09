import IronDefer.RowStore.History

/-!
# Views that are refreshed

A view shows the answer of a query to a store, asked for some time ago: it is refreshed in a loop
that asks, waits for the answer, and puts it in the place of what is shown, while the store goes on.
A query that fails leaves what is shown as it is. What is shown has therefore been true at some
instant, and these instants do not go back. A view that counts rows lags behind by those that have
come and gone since.

## Main definitions

* `Cached`, `Cached.step`: a store with a view of it, and their steps
* `RunsTo`: runs between two states, whatever their events
* `Cached.Dated`: what is shown, and the answer that is held, have been true one after the other
* `enters`, `leaves`: the changes by which rows come under a condition, and no longer are

## Main results

* `Cached.Dated.step`, `Cached.Dated.run`: **what is shown has been true** at some instant
* `Cached.Dated.advances`: these instants do not go back
* `Reaches.countP_eq`: rows are counted by those that have come and gone
-/

namespace RowStore

variable {σ ε ω ρ α : Type}

/-! ## The loop -/

/-- Where the refreshing of a view is. -/
inductive Refresh (ρ : Type) where
  | asking
  | holding (answer : ρ)
  | waiting
  | stopped

/-- A store, and a view of it. -/
structure Cached (σ ρ α : Type) where
  store : σ
  refresh : Refresh ρ
  shown : α

/-- A step of the store, or of the loop that refreshes the view. -/
inductive CacheEvent (ε ρ : Type) where
  | store (e : ε)
  | answered (answer : ρ)
  | failed
  | kept
  | ticked
  | cancelled

namespace Cached

/-- The loop begins by asking, and shows `a` until then. -/
def start (s : σ) (a : α) : Cached σ ρ α := ⟨s, .asking, a⟩

section Steps

variable (base : σ → ε → Option (σ × ω)) (answers : σ → ρ → Bool) (digest : ρ → α)

/-- A step, where it is enabled, with the output of the store. -/
def step (c : Cached σ ρ α) : CacheEvent ε ρ → Option (Cached σ ρ α × Option ω)
  | .store e => (base c.store e).map fun r => ({ c with store := r.1 }, some r.2)
  | .answered answer =>
    match c.refresh with
    | .asking =>
      if answers c.store answer then some ({ c with refresh := .holding answer }, none) else none
    | _ => none
  | .failed =>
    match c.refresh with
    | .asking => some ({ c with refresh := .waiting }, none)
    | _ => none
  | .kept =>
    match c.refresh with
    | .holding answer => some ({ c with refresh := .waiting, shown := digest answer }, none)
    | _ => none
  | .ticked =>
    match c.refresh with
    | .waiting => some ({ c with refresh := .asking }, none)
    | _ => none
  | .cancelled =>
    match c.refresh with
    | .waiting => some ({ c with refresh := .stopped }, none)
    | _ => none

/-- What a step does to the store and to the view. -/
inductive Stepped (c : Cached σ ρ α) : Cached σ ρ α → Option ω → Prop
  | store {e : ε} {s : σ} {o : ω} : base c.store e = some (s, o) →
      Stepped c { c with store := s } (some o)
  | answered {answer : ρ} : answers c.store answer = true →
      Stepped c { c with refresh := .holding answer } none
  | kept {answer : ρ} : c.refresh = .holding answer →
      Stepped c { c with refresh := .waiting, shown := digest answer } none
  | goesOn {r : Refresh ρ} : (∀ answer, r ≠ .holding answer) →
      Stepped c { c with refresh := r } none

end Steps

variable {base : σ → ε → Option (σ × ω)} {answers : σ → ρ → Bool} {digest : ρ → α}
  {c c' : Cached σ ρ α} {o : Option ω} {ev : CacheEvent ε ρ}

theorem stepped_of_step (h : c.step base answers digest ev = some (c', o)) :
    Stepped base answers digest c c' o := by
  cases ev with
  | store e =>
    obtain ⟨⟨s, o'⟩, hs, heq⟩ := Option.map_eq_some_iff.mp h
    cases heq
    exact .store hs
  | answered answer =>
    simp only [Cached.step] at h
    split at h
    · split at h
      next hans =>
        cases h
        exact .answered hans
      · cases h
    · cases h
  | kept =>
    simp only [Cached.step] at h
    split at h
    next hhold =>
      cases h
      exact .kept hhold
    · cases h
  | failed | ticked | cancelled =>
    simp only [Cached.step] at h
    split at h
    · cases h
      exact .goesOn fun _ hhold => (by cases hhold)
    · cases h

end Cached

/-! ## Instants -/

/-- A run between two states, whatever its events. -/
abbrev RunsTo (step : σ → ε → Option (σ × ω)) (s : σ) (os : List ω) (s' : σ) : Prop :=
  Reaches step (fun _ _ _ => True) s os s'

section RunsTo

variable {step : σ → ε → Option (σ × ω)} {s s' s'' : σ} {e : ε} {o : ω} {os ps : List ω}

theorem RunsTo.trans (h : RunsTo step s os s') (h' : RunsTo step s' ps s'') :
    RunsTo step s (os ++ ps) s'' := Reaches.trans h h'

theorem RunsTo.next (h : RunsTo step s os s') (hs : step s' e = some (s'', o)) :
    RunsTo step s (os ++ [o]) s'' := Reaches.next h trivial hs

end RunsTo

namespace Cached

variable {base : σ → ε → Option (σ × ω)} {answers : σ → ρ → Bool} {digest : ρ → α}
  {s₀ : σ} {a₀ : α} {os : List ω} {c c' : Cached σ ρ α} {o : Option ω} {ev : CacheEvent ε ρ}

/-- What is shown has been true at `d`: it is the answer of the query to it, or it has been shown
from the beginning. -/
def TrueAt (answers : σ → ρ → Bool) (digest : ρ → α) (s₀ : σ) (a₀ : α) (d : σ) (shown : α) : Prop :=
  (d = s₀ ∧ shown = a₀) ∨ ∃ answer, answers d answer = true ∧ shown = digest answer

/-- What is shown has been true on the way from `s₀`, and the answer that is held after that. -/
def Dated (base : σ → ε → Option (σ × ω)) (answers : σ → ρ → Bool) (digest : ρ → α) (s₀ : σ)
    (a₀ : α) (os : List ω) (c : Cached σ ρ α) : Prop :=
  ∃ d os₁ os₂, os = os₁ ++ os₂ ∧ RunsTo base s₀ os₁ d ∧ RunsTo base d os₂ c.store ∧
    TrueAt answers digest s₀ a₀ d c.shown ∧
      ∀ answer, c.refresh = .holding answer → ∃ d' ps qs, os₂ = ps ++ qs ∧ RunsTo base d ps d' ∧
        RunsTo base d' qs c.store ∧ answers d' answer = true

theorem dated_start (s₀ : σ) (a₀ : α) :
    Dated base answers digest s₀ a₀ [] (.start s₀ a₀ : Cached σ ρ α) :=
  ⟨s₀, [], [], rfl, .init, .init, .inl ⟨rfl, rfl⟩, fun _ hhold => (by cases hhold)⟩

/-- **What is shown has been true, at an instant that advances**, step by step. -/
theorem Dated.step (h : Dated base answers digest s₀ a₀ os c)
    (hs : c.step base answers digest ev = some (c', o)) :
    Dated base answers digest s₀ a₀ (os ++ o.toList) c' := by
  obtain ⟨d, os₁, os₂, rfl, hfrom, hto, htrue, hheld⟩ := h
  cases stepped_of_step hs with
  | @store e s o hstep =>
    refine ⟨d, os₁, os₂ ++ [o], List.append_assoc .., hfrom, hto.next hstep, htrue, ?_⟩
    intro answer hhold
    obtain ⟨d', ps, qs, rfl, hps, hqs, hanswer⟩ := hheld answer hhold
    exact ⟨d', ps, qs ++ [o], List.append_assoc .., hps, hqs.next hstep, hanswer⟩
  | answered hanswer =>
    refine ⟨d, os₁, os₂, List.append_nil _, hfrom, hto, htrue, fun answer hhold => ?_⟩
    cases hhold
    exact ⟨c.store, os₂, [], (List.append_nil _).symm, hto, .init, hanswer⟩
  | @kept answer hhold =>
    -- the answer has been given after what has been shown so far
    obtain ⟨d', ps, qs, rfl, hps, hqs, hanswer⟩ := hheld answer hhold
    refine ⟨d', os₁ ++ ps, qs, ?_, hfrom.trans hps, hqs, .inr ⟨answer, hanswer, rfl⟩,
      fun _ hnone => (by cases hnone)⟩
    rw [Option.toList_none, List.append_nil, List.append_assoc]
  | goesOn hnone =>
    exact ⟨d, os₁, os₂, List.append_nil _, hfrom, hto, htrue,
      fun answer hhold => absurd hhold (hnone answer)⟩

/-- The outputs of the store. -/
def storeOutputs (os : List (Option ω)) : List ω := os.flatMap Option.toList

/-- What is shown in a run has been true. -/
theorem Dated.run (h : Dated base answers digest s₀ a₀ os c) {es : List (Option ω)}
    (hrun : RunsTo (Cached.step base answers digest) c es c') :
    Dated base answers digest s₀ a₀ (os ++ storeOutputs es) c' := by
  refine Reaches.induct
    (P := fun es c' => Dated base answers digest s₀ a₀ (os ++ storeOutputs es) c') ?_ ?_ hrun
  · exact (List.append_nil os).symm ▸ h
  · intro es c₁ ev c₂ o _ ih _ hs
    have hnext := ih.step hs
    rw [storeOutputs, List.flatMap_append, List.flatMap_singleton, ← List.append_assoc]
    exact hnext

/-- **The instants of what is shown do not go back.** -/
theorem Dated.advances (h : Dated base answers digest s₀ a₀ os c) {es : List (Option ω)}
    (hrun : RunsTo (Cached.step base answers digest) c es c') :
    ∃ d d' os₁ os₂ os₃, os ++ storeOutputs es = os₁ ++ os₂ ++ os₃ ∧ RunsTo base s₀ os₁ d ∧
      RunsTo base d os₂ d' ∧ RunsTo base d' os₃ c'.store ∧
      TrueAt answers digest s₀ a₀ d c.shown ∧ TrueAt answers digest s₀ a₀ d' c'.shown := by
  obtain ⟨d, os₁, os₂, rfl, hfrom, hto, htrue, hheld⟩ := h
  -- from the first instant on, what is shown there is where the view begins
  have hdated : Dated base answers digest d c.shown os₂ c :=
    ⟨d, [], os₂, rfl, .init, hto, .inl ⟨rfl, rfl⟩, hheld⟩
  obtain ⟨d', ps, qs, heq, hps, hqs, htrue', -⟩ := hdated.run hrun
  refine ⟨d, d', os₁, ps, qs, ?_, hfrom, hps, hqs, htrue, ?_⟩
  · rw [List.append_assoc, heq, List.append_assoc]
  · rcases htrue' with ⟨rfl, heq⟩ | hanswer
    · exact heq ▸ htrue
    · exact .inr hanswer

end Cached

/-! ## Rows that come and go -/

section Counts

variable {K V A S B E Err O R : Type} [DecidableEq K] {Res : S → Type} {key : V → K}

/-- The change brings a row under the condition. -/
def enters (p : V → Bool) (c : Change V) : Bool := p c.new && !c.old.any p

/-- The change takes a row from under the condition. -/
def leaves (p : V → Bool) (c : Change V) : Bool := c.old.any p && !p c.new

theorem countP_writeRow (p : V → Bool) (v : V) (ws : List V) :
    (writeRow key v ws).countP p +
        (if leaves p ⟨ws.find? fun w => decide (key w = key v), v⟩ = true then 1 else 0) =
      ws.countP p +
        if enters p ⟨ws.find? fun w => decide (key w = key v), v⟩ = true then 1 else 0 := by
  induction ws with
  | nil => simp [writeRow, enters, leaves]
  | cons w ws ih =>
    by_cases hw : key w = key v
    · -- the version that is replaced is the one that is found
      have hfound : (w :: ws).find? (fun w => decide (key w = key v)) = some w :=
        List.find?_cons_of_pos (decide_eq_true hw)
      rw [writeRow, if_pos hw, hfound, List.countP_cons, List.countP_cons]
      cases hp : p w <;> cases hv : p v <;> simp [enters, leaves, hp, hv]
    · have hfound : (w :: ws).find? (fun w => decide (key w = key v)) =
          ws.find? fun w => decide (key w = key v) := List.find?_cons_of_neg (by simpa using hw)
      rw [writeRow, if_neg hw, hfound, List.countP_cons, List.countP_cons]
      omega

theorem Table.countP_record (p : V → Bool) (t : Table key) (vs : List V) :
    (t.putAll vs).rows.countP p + (t.record vs).countP (leaves p) =
      t.rows.countP p + (t.record vs).countP (enters p) := by
  induction vs generalizing t with
  | nil => rfl
  | cons v vs ih =>
    have hfirst : (t.put v).rows.countP p +
          (if leaves p ⟨t.get (key v), v⟩ = true then 1 else 0) =
        t.rows.countP p + if enters p ⟨t.get (key v), v⟩ = true then 1 else 0 :=
      countP_writeRow p v t.rows
    have hrest := ih (t.put v)
    rw [Table.putAll_cons, Table.record_cons, List.countP_cons, List.countP_cons]
    omega

variable {sem : Semantics key A S Res B E Err} {code : O → Program S Res (Finish R)}
  {db db' : Db key A S Res O B R} {o : Output O B V A R Err} {ev : Event O B E}

theorem Db.Step.countP_eq (h : db.Step sem code ev db' o) (p : V → Bool) :
    db'.table.rows.countP p + o.changes.countP (leaves p) =
      db.table.rows.countP p + o.changes.countP (enters p) := by
  cases h with
  | commit => exact Table.countP_record p db.table _
  | start | exec | reject | fault | rollback | unwind => rfl

/-- **Rows are counted by those that have come and gone**, along every run. -/
theorem Reaches.countP_eq {ok : List (Output O B V A R Err) → Db key A S Res O B R →
      Event O B E → Prop} {os : List (Output O B V A R Err)}
    (h : Reaches (Db.step sem code) ok db os db') (p : V → Bool) :
    db'.table.rows.countP p + (os.flatMap Output.changes).countP (leaves p) =
      db.table.rows.countP p + (os.flatMap Output.changes).countP (enters p) := by
  induction h with
  | init => rfl
  | next _ _ hs ih =>
    have hstep := (Db.step_iff.mp hs).countP_eq p
    rw [List.flatMap_append, List.flatMap_singleton, List.countP_append, List.countP_append]
    omega

end Counts

end RowStore
