import IronDefer.RowStore.Runs

/-!
# Refinement

A specification is a relation that takes a state to another under a label. A step function refines
it where every admitted step is, seen through an abstraction of its states, a step of the
specification with the label of its output, or no step where the output has no label. A run is then
a path of the specification, labelled by what it has put out, and what the specification keeps
holds in every state of the run.

## Main definitions

* `Traced`: the paths of a specification, with their labels
* `Refines`: a step function refines a specification

## Main results

* `Refines.traced`: **a run is a path of the specification**
* `Refines.transports`: what the specification keeps holds along every run
-/

namespace RowStore

variable {σ ε ω τ ℓ : Type} {step : σ → ε → Option (σ × ω)} {ok : List ω → σ → ε → Prop} {s₀ : σ}

/-- The paths of a specification, with the labels of their steps. -/
inductive Traced (next : τ → ℓ → τ → Prop) (t : τ) : List ℓ → τ → Prop
  | nil : Traced next t [] t
  | snoc {ls u l v} : Traced next t ls u → next u l v → Traced next t (ls ++ [l]) v

/-- What every step of a specification keeps holds along its paths, whatever labels they have. -/
theorem Traced.induct {next : τ → ℓ → τ → Prop} {t u : τ} {ls : List ℓ} {P : List ℓ → τ → Prop}
    (h : Traced next t ls u) (init : P [] t)
    (keeps : ∀ ls u l v, Traced next t ls u → P ls u → next u l v → P (ls ++ [l]) v) : P ls u := by
  induction h with
  | nil => exact init
  | snoc hpath hnext ih => exact keeps _ _ _ _ hpath ih hnext

/-- Every admitted step of the runs from `s₀` is a step of the specification, or none. -/
def Refines (step : σ → ε → Option (σ × ω)) (ok : List ω → σ → ε → Prop) (s₀ : σ)
    (next : τ → ℓ → τ → Prop) (abstraction : σ → τ) (label : ω → Option ℓ) : Prop :=
  ∀ os s e s' o, Reaches step ok s₀ os s → ok os s e → step s e = some (s', o) →
    match label o with
    | some l => next (abstraction s) l (abstraction s')
    | none => abstraction s' = abstraction s

namespace Refines

variable {next : τ → ℓ → τ → Prop} {abstraction : σ → τ} {label : ω → Option ℓ}

/-- **A run is a path of the specification**, labelled by what it has put out. -/
theorem traced (hr : Refines step ok s₀ next abstraction label) {os : List ω} {s : σ}
    (h : Reaches step ok s₀ os s) :
    Traced next (abstraction s₀) (os.filterMap label) (abstraction s) := by
  refine h.induct (P := fun os s => Traced next (abstraction s₀) (os.filterMap label)
    (abstraction s)) .nil fun os s e s' o hrun ih hok hs => ?_
  have hstep := hr os s e s' o hrun hok hs
  rw [List.filterMap_append]
  cases hl : label o with
  | some l =>
    rw [hl] at hstep
    simpa [hl] using ih.snoc hstep
  | none =>
    rw [hl] at hstep
    rw [hstep]
    simpa [hl] using ih

/-- **What the specification keeps holds along every run.** -/
theorem transports (hr : Refines step ok s₀ next abstraction label) {P : List ℓ → τ → Prop}
    (init : P [] (abstraction s₀))
    (keeps : ∀ ls u l v, Traced next (abstraction s₀) ls u → P ls u → next u l v → P (ls ++ [l]) v)
    {os : List ω} {s : σ} (h : Reaches step ok s₀ os s) : P (os.filterMap label) (abstraction s) :=
  (hr.traced h).induct init keeps

end Refines

end RowStore
