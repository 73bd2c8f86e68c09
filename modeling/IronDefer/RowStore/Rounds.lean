import Mathlib.Algebra.BigOperators.Group.List.Lemmas
import Mathlib.Algebra.Ring.Nat

/-!
# Rounds that make progress

A system serves orders by itself, one at a time, and between them anything else goes on. Progress is
told by a potential that nothing raises, and by a view of the states, which stays as it is where the
potential does. An order helps if it lowers the potential wherever the view is what it has been at
the beginning of its round: then it does not matter what has gone on before it in the round, since
this has left the view alone, or has lowered the potential itself.

## Main definitions

* `Descends`: the potential has gone down, or it has stayed and the view with it
* `Tended`: orders are served one after the other, and anything else goes on in between
* `Rounds`: rounds of orders, each of which fits the state it begins in

## Main results

* `Tended.lt_of_helps`: a round with an order that helps lowers the potential
* `Rounds.le_sub`: **rounds that help use the potential up**, one each
-/

namespace RowStore

variable {S C α : Type}

/-- The potential has gone down from `s` to `s'`, or it has stayed, and the view has stayed too. -/
def Descends (Φ : S → ℕ) (view : S → α) (s s' : S) : Prop :=
  Φ s' < Φ s ∨ Φ s' = Φ s ∧ view s' = view s

section Descends

variable {Φ : S → ℕ} {view : S → α} {s s' s'' : S}

theorem Descends.refl : Descends Φ view s s := .inr ⟨rfl, rfl⟩

theorem Descends.le (h : Descends Φ view s s') : Φ s' ≤ Φ s := by
  rcases h with hlt | ⟨heq, -⟩
  · exact Nat.le_of_lt hlt
  · exact Nat.le_of_eq heq

theorem Descends.trans (h : Descends Φ view s s') (h' : Descends Φ view s' s'') :
    Descends Φ view s s'' := by
  rcases h with hlt | ⟨heq, hview⟩
  · exact .inl (Nat.lt_of_le_of_lt h'.le hlt)
  · rcases h' with hlt' | ⟨heq', hview'⟩
    · exact .inl (heq ▸ hlt')
    · exact .inr ⟨heq'.trans heq, hview'.trans hview⟩

/-- Where the view has changed, the potential has gone down. -/
theorem Descends.lt_of_view_ne (h : Descends Φ view s s') (hview : view s' ≠ view s) :
    Φ s' < Φ s :=
  h.resolve_right fun hstay => hview hstay.2

/-- Where each of some parts descends, their sum does. -/
theorem Descends.sum {X : Type} {keys : List X} {Φ : S → X → ℕ} {view : S → X → α}
    (h : ∀ x ∈ keys, Descends (fun s => Φ s x) (fun s => view s x) s s') :
    Descends (fun s => (keys.map (Φ s)).sum) (fun s => keys.map (view s)) s s' := by
  induction keys with
  | nil => exact .inr ⟨rfl, rfl⟩
  | cons x keys ih =>
    have hrest := ih fun y hy => h y (List.mem_cons_of_mem _ hy)
    simp only [Descends, List.map_cons, List.sum_cons]
    rcases h x List.mem_cons_self with hlt | ⟨heq, hview⟩
    · exact .inl (Nat.add_lt_add_of_lt_of_le hlt hrest.le)
    · rcases hrest with hlt | ⟨hstay, hviews⟩
      · exact .inl (Nat.add_lt_add_of_le_of_lt (Nat.le_of_eq heq) hlt)
      · exact .inr ⟨congrArg₂ (· + ·) heq hstay, congrArg₂ List.cons hview hviews⟩

end Descends

section Rounds

variable (serves : C → S → S → Prop) (goes : S → S → Prop)

/-- The orders of the list are served by themselves, one after the other, and anything else goes on
before, between and after them. -/
inductive Tended : S → List C → S → Prop
  | done {s} : Tended s [] s
  | serve {s c s' cs s''} : serves c s s' → Tended s' cs s'' → Tended s (c :: cs) s''
  | go {s s' cs s''} : goes s s' → Tended s' cs s'' → Tended s cs s''

/-- As many rounds as `k`, with orders that `fits` the state in which their round begins. -/
inductive Rounds (fits : S → List C → Prop) : ℕ → S → S → Prop
  | done {s} : Rounds fits 0 s s
  | round {k s cs s' s''} : fits s cs → Tended serves goes s cs s' → Rounds fits k s' s'' →
      Rounds fits (k + 1) s s''

variable {serves goes} {I : S → Prop} {Φ : S → ℕ} {view : S → α}

/-- What is kept by every order and by all that goes on is kept by a round. -/
theorem Tended.descends
    (hserves : ∀ c s s', I s → serves c s s' → I s' ∧ Descends Φ view s s')
    (hgoes : ∀ s s', I s → goes s s' → I s' ∧ Descends Φ view s s')
    {s s' : S} {cs : List C} (h : Tended serves goes s cs s') (hs : I s) :
    I s' ∧ Descends Φ view s s' := by
  induction h with
  | done => exact ⟨hs, .refl⟩
  | serve hserve _ ih =>
    obtain ⟨hs, hfirst⟩ := hserves _ _ _ hs hserve
    obtain ⟨hs, hrest⟩ := ih hs
    exact ⟨hs, hfirst.trans hrest⟩
  | go hgo _ ih =>
    obtain ⟨hs, hfirst⟩ := hgoes _ _ hs hgo
    obtain ⟨hs, hrest⟩ := ih hs
    exact ⟨hs, hfirst.trans hrest⟩

/-- **A round with an order that helps lowers the potential**: `c` lowers it in every state with the
view of `s`, and the round goes on from where the potential has stayed. -/
theorem Tended.lt_of_helps
    (hserves : ∀ c s s', I s → serves c s s' → I s' ∧ Descends Φ view s s')
    (hgoes : ∀ s s', I s → goes s s' → I s' ∧ Descends Φ view s s')
    {s s₁ s' : S} {cs : List C} {c : C}
    (hhelps : ∀ s₁ s₂, I s₁ → view s₁ = view s → serves c s₁ s₂ → Φ s₂ < Φ s₁)
    (h : Tended serves goes s₁ cs s') (hs : I s₁) (hbefore : Descends Φ view s s₁) (hc : c ∈ cs) :
    Φ s' < Φ s := by
  induction h with
  | done => cases hc
  | serve hserve hrest ih =>
    obtain ⟨hs₂, hfirst⟩ := hserves _ _ _ hs hserve
    rcases List.mem_cons.mp hc with rfl | hc
    · -- the order that helps is served, in the view of the beginning or below its potential
      have hle := (hrest.descends hserves hgoes hs₂).2.le
      rcases hbefore with hlt | ⟨heq, hview⟩
      · exact Nat.lt_of_le_of_lt (Nat.le_trans hle hfirst.le) hlt
      · exact heq ▸ Nat.lt_of_le_of_lt hle (hhelps _ _ hs hview hserve)
    · exact ih hs₂ (hbefore.trans hfirst) hc
  | go hgo _ ih =>
    obtain ⟨hs₂, hfirst⟩ := hgoes _ _ hs hgo
    exact ih hs₂ (hbefore.trans hfirst) hc

/-- **Rounds that help use the potential up**: each takes one away, as long as there is one. -/
theorem Rounds.le_sub {fits : S → List C → Prop}
    (hserves : ∀ c s s', I s → serves c s s' → I s' ∧ Descends Φ view s s')
    (hgoes : ∀ s s', I s → goes s s' → I s' ∧ Descends Φ view s s')
    (hhelps : ∀ s cs, I s → fits s cs → Φ s ≠ 0 → ∃ c ∈ cs, ∀ s₁ s₂, I s₁ → view s₁ = view s →
      serves c s₁ s₂ → Φ s₂ < Φ s₁)
    {k : ℕ} {s s' : S} (h : Rounds serves goes fits k s s') (hs : I s) :
    I s' ∧ Φ s' ≤ Φ s - k := by
  induction h with
  | done => exact ⟨hs, Nat.le_refl _⟩
  | @round k s cs s₁ s' hfits hround _ ih =>
    obtain ⟨hs₁, hdescends⟩ := hround.descends hserves hgoes hs
    obtain ⟨hs', hle⟩ := ih hs₁
    refine ⟨hs', ?_⟩
    by_cases hzero : Φ s = 0
    · have hstart := hdescends.le
      omega
    · obtain ⟨c, hc, hhelp⟩ := hhelps s cs hs hfits hzero
      have hlt := hround.lt_of_helps hserves hgoes hhelp hs .refl hc
      omega

end Rounds

end RowStore
