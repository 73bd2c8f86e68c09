import Mathlib.Data.List.Induction

/-!
# Runs of a step function

A step function takes a state and an event to the next state and an output, where the event is
enabled. `Reaches step ok s₀ os s` says that some run from `s₀` whose events are admitted by `ok`
ends in `s` having given the outputs `os`; whether an event is admitted may depend on the outputs
given before it and on the state it is executed in.

## Main definitions

* `run`: execute a list of events
* `Reaches`: the states and outputs of admitted runs
* `Admitted`: every event of a list is admitted where it is executed
* `lastOf`: the last value found in the outputs

## Main results

* `Reaches.induct`: a property of outputs and states that every admitted step keeps holds along
  every run
* `Reaches.of_run`: executing admitted events is a run
-/

namespace RowStore

variable {σ ε ω : Type} (step : σ → ε → Option (σ × ω))

/-- Execute events in order; `none` when one is not enabled. -/
def run (s : σ) : List ε → Option (σ × List ω)
  | [] => some (s, [])
  | e :: es => (step s e).bind fun r => (run r.1 es).map fun q => (q.1, r.2 :: q.2)

/-- The outputs and final states of the runs from `s₀` that `ok` admits. -/
inductive Reaches (ok : List ω → σ → ε → Prop) (s₀ : σ) : List ω → σ → Prop
  | init : Reaches ok s₀ [] s₀
  | next {os s e s' o} : Reaches ok s₀ os s → ok os s e → step s e = some (s', o) →
      Reaches ok s₀ (os ++ [o]) s'

/-- Every event of the list is admitted where it is executed. -/
def Admitted (ok : List ω → σ → ε → Prop) : List ω → σ → List ε → Prop
  | _, _, [] => True
  | os, s, e :: es => ok os s e ∧
      match step s e with
      | some (s', o) => Admitted ok (os ++ [o]) s' es
      | none => True

instance decidableAdmitted (ok : List ω → σ → ε → Prop) [∀ os s e, Decidable (ok os s e)] :
    ∀ (es : List ε) (os : List ω) (s : σ), Decidable (Admitted step ok os s es)
  | [], _, _ => .isTrue trivial
  | e :: es, os, s =>
    have : Decidable (match step s e with
        | some (s', o) => Admitted step ok (os ++ [o]) s' es
        | none => True) :=
      match step s e with
      | some (s', o) => decidableAdmitted ok es (os ++ [o]) s'
      | none => .isTrue trivial
    inferInstanceAs (Decidable (_ ∧ _))

variable {step} {ok : List ω → σ → ε → Prop} {s₀ : σ}

theorem Admitted.mono {ok' : List ω → σ → ε → Prop} (himp : ∀ os s e, ok os s e → ok' os s e)
    {es : List ε} {os : List ω} {s : σ} (h : Admitted step ok os s es) :
    Admitted step ok' os s es := by
  induction es generalizing os s with
  | nil => trivial
  | cons e es ih =>
    refine ⟨himp _ _ _ h.1, ?_⟩
    have hrest := h.2
    split
    next hs =>
      rw [hs] at hrest
      exact ih hrest
    · trivial

theorem Admitted.of_forall_mem {es : List ε} (hall : ∀ os s, ∀ e ∈ es, ok os s e) (os : List ω)
    (s : σ) : Admitted step ok os s es := by
  induction es generalizing os s with
  | nil => trivial
  | cons e es ih =>
    refine ⟨hall _ _ _ List.mem_cons_self, ?_⟩
    split
    · exact ih (fun os s e he => hall os s e (List.mem_cons_of_mem _ he)) _ _
    · trivial

theorem Admitted.of_forall (hall : ∀ os s e, ok os s e) (es : List ε) (os : List ω) (s : σ) :
    Admitted step ok os s es := .of_forall_mem (fun os s e _ => hall os s e) os s

/-- **The run lemma.** What holds at the start and survives every admitted step holds along
every run. -/
theorem Reaches.induct {P : List ω → σ → Prop} (init : P [] s₀)
    (next : ∀ os s e s' o, Reaches step ok s₀ os s → P os s → ok os s e → step s e = some (s', o) →
      P (os ++ [o]) s')
    {os : List ω} {s : σ} (h : Reaches step ok s₀ os s) : P os s := by
  induction h with
  | init => exact init
  | next hr hok hs ih => exact next _ _ _ _ _ hr ih hok hs

theorem Reaches.mono {ok' : List ω → σ → ε → Prop} (himp : ∀ os s e, ok os s e → ok' os s e)
    {os : List ω} {s : σ} (h : Reaches step ok s₀ os s) : Reaches step ok' s₀ os s :=
  h.induct .init fun _ _ _ _ _ _ ih hok hs => .next ih (himp _ _ _ hok) hs

/-- Runs compose. -/
theorem Reaches.trans {os ps : List ω} {s t : σ} (h : Reaches step ok s₀ os s)
    (h' : Reaches step (fun ps => ok (os ++ ps)) s ps t) : Reaches step ok s₀ (os ++ ps) t := by
  induction h' with
  | init => simpa using h
  | next _ hok hs ih =>
    rw [← List.append_assoc]
    exact .next ih hok hs

/-- A run whose outputs satisfy `P`, a property of prefixes, is a run of events admitted after
outputs that satisfy `P`. -/
theorem Reaches.restrict {P : List ω → Prop} (hP : ∀ os o, P (os ++ [o]) → P os) {os : List ω}
    {s : σ} (h : Reaches step ok s₀ os s) (hos : P os) :
    Reaches step (fun os s e => ok os s e ∧ P os) s₀ os s := by
  induction h with
  | init => exact .init
  | next _ hok hs ih =>
    have hpre := hP _ _ hos
    exact .next (ih hpre) ⟨hok, hpre⟩ hs

theorem Reaches.of_run {es : List ε} {os : List ω} {s : σ} (h : Reaches step ok s₀ os s)
    (hok : Admitted step ok os s es) {t : σ} {ps : List ω} (hrun : run step s es = some (t, ps)) :
    Reaches step ok s₀ (os ++ ps) t := by
  induction es generalizing os s ps with
  | nil =>
    obtain ⟨rfl, rfl⟩ : s = t ∧ [] = ps := by simpa [run] using hrun
    simpa using h
  | cons e es ih =>
    simp only [run, Option.bind_eq_some_iff, Option.map_eq_some_iff] at hrun
    obtain ⟨⟨s', o⟩, hs, ⟨t', qs⟩, hq, he⟩ := hrun
    obtain ⟨rfl, rfl⟩ : t' = t ∧ o :: qs = ps := by simpa using he
    obtain ⟨hhead, hrest⟩ := hok
    rw [hs] at hrest
    simpa using ih (.next h hhead hs) hrest hq

/-- Executing admitted events from the start is a run to the state and outputs it computes. -/
theorem Reaches.of_isSome {es : List ε} (hok : Admitted step ok [] s₀ es)
    (h : (run step s₀ es).isSome) :
    Reaches step ok s₀ ((run step s₀ es).get h).2 ((run step s₀ es).get h).1 := by
  obtain ⟨⟨t, ps⟩, hr⟩ := Option.isSome_iff_exists.mp h
  simp only [hr, Option.get_some]
  exact Reaches.of_run .init hok hr

/-- A run reaches the outputs of each of its prefixes. -/
theorem Reaches.of_append {os ps : List ω} {t : σ} (h : Reaches step ok s₀ (os ++ ps) t) :
    ∃ s, Reaches step ok s₀ os s := by
  induction ps using List.reverseRecOn generalizing t with
  | nil => exact ⟨t, by simpa using h⟩
  | append_singleton ps p ih =>
    rw [← List.append_assoc] at h
    generalize hq : os ++ ps ++ [p] = qs at h
    cases h with
    | init => simp at hq
    | next hr _ _ =>
      obtain ⟨rfl, -⟩ := List.append_inj' hq rfl
      exact ih hr

/-- The last step of a run. -/
theorem Reaches.last {os : List ω} {o : ω} {t : σ} (h : Reaches step ok s₀ (os ++ [o]) t) :
    ∃ s e, Reaches step ok s₀ os s ∧ ok os s e ∧ step s e = some (t, o) := by
  generalize hq : os ++ [o] = qs at h
  cases h with
  | init => simp at hq
  | next hr hok hs =>
    obtain ⟨rfl, h⟩ := List.append_inj' hq rfl
    obtain rfl : o = _ := by simpa using h
    exact ⟨_, _, hr, hok, hs⟩

/-! ## The last value -/

section LastOf

variable {α : Type}

/-- The last value `f` finds in the outputs. -/
def lastOf (f : ω → Option α) (os : List ω) : Option α := (os.filterMap f).getLast?

@[simp] theorem lastOf_nil (f : ω → Option α) : lastOf f [] = none := rfl

theorem lastOf_append (f : ω → Option α) (os ps : List ω) :
    lastOf f (os ++ ps) = (lastOf f ps).or (lastOf f os) := by
  rw [lastOf, List.filterMap_append, List.getLast?_append]
  rfl

theorem lastOf_singleton (f : ω → Option α) (o : ω) : lastOf f [o] = f o := by
  cases h : f o <;> simp [lastOf, h]

theorem lastOf_map {β : Type} (f : ω → Option α) (g : α → β) (os : List ω) :
    lastOf (fun o => (f o).map g) os = (lastOf f os).map g := by
  rw [lastOf, lastOf, ← List.getLast?_map, List.map_filterMap]

end LastOf

end RowStore
