import IronDefer.RowStore.Table

/-!
# Transaction programs

A transaction program is a tree of statements: each statement returns a result, and the program
continues with it. A program ends with a value, or unwinds without one. What a statement does on
the rows it sees is a parameter (`Semantics`): the row versions it writes, the log rows it
appends, and its result.

`Program.Along` says what a program does to the rows whatever other transactions do in between:
each statement may see any committed table the environment can bring about (`rely`), with the
program's own versions over it, as long as the rows it has written did not change under it.

## Main definitions

* `Program`: transaction programs, a monad
* `Semantics`, `Effect`: the meaning of the statements
* `Finish`: how a transaction ends, with the reply to its caller
* `Program.All`: every statement of a program satisfies a predicate
* `Program.EndsIn`: a program ends well as long as the results of its statements are allowed
* `Program.Along`: every run of a program keeps an invariant of its changes and log rows, and
  ends in a postcondition

## Main results

* `Program.along_bind`, `Program.Along.imp`: programs compose along their intermediate results
* `Program.All.along`: what every statement does to single rows, the program does
-/

namespace RowStore

/-- A program over statements `S` with results `Res`. -/
inductive Program (S : Type) (Res : S → Type) (α : Type) : Type where
  | pure (a : α)
  | unwind
  | stmt (s : S) (k : Res s → Program S Res α)

/-- The end of a transaction: commit or roll back, and reply. -/
inductive Finish (R : Type) where
  | commit (r : R)
  | rollback (r : R)
  deriving DecidableEq, Repr

def Finish.reply {R : Type} : Finish R → R
  | .commit r => r
  | .rollback r => r

namespace Program

variable {S : Type} {Res : S → Type} {α β γ : Type}

/-- Continue `p` with its value. -/
protected def bind (p : Program S Res α) (f : α → Program S Res β) : Program S Res β :=
  match p with
  | .pure a => f a
  | .unwind => .unwind
  | .stmt s k => .stmt s fun r => (k r).bind f

instance : Monad (Program S Res) where
  pure := .pure
  bind := .bind

/-- Execute one statement. -/
def exec (s : S) : Program S Res (Res s) := .stmt s .pure

@[simp] theorem pure_bind (a : α) (f : α → Program S Res β) :
    (Program.pure a : Program S Res α) >>= f = f a := rfl

@[simp] theorem return_bind (a : α) (f : α → Program S Res β) :
    (Pure.pure a : Program S Res α) >>= f = f a := rfl

@[simp] theorem unwind_bind (f : α → Program S Res β) :
    (Program.unwind : Program S Res α) >>= f = .unwind := rfl

@[simp] theorem exec_bind (s : S) (f : Res s → Program S Res β) :
    (exec s : Program S Res (Res s)) >>= f = .stmt s f := rfl

@[simp] theorem return_eq_pure (a : α) : (Pure.pure a : Program S Res α) = .pure a := rfl

@[simp] theorem bind_pure (p : Program S Res α) : p >>= Program.pure = p := by
  induction p with
  | pure a => rfl
  | unwind => rfl
  | stmt s k ih => exact congrArg (Program.stmt s) (funext ih)

theorem bind_assoc (p : Program S Res α) (f : α → Program S Res β) (g : β → Program S Res γ) :
    (p >>= f) >>= g = p >>= fun a => f a >>= g := by
  induction p with
  | pure a => rfl
  | unwind => rfl
  | stmt s k ih => exact congrArg (Program.stmt s) (funext ih)

/-- Every statement the program can reach satisfies `P`. -/
def All (P : S → Prop) : Program S Res α → Prop
  | .pure _ => True
  | .unwind => True
  | .stmt s k => P s ∧ ∀ r, (k r).All P

@[simp] theorem all_pure (P : S → Prop) (a : α) :
    (Program.pure a : Program S Res α).All P := trivial

@[simp] theorem all_unwind (P : S → Prop) : (Program.unwind : Program S Res α).All P := trivial

@[simp] theorem all_stmt {P : S → Prop} {s : S} {k : Res s → Program S Res α} :
    (Program.stmt s k).All P ↔ P s ∧ ∀ r, (k r).All P := Iff.rfl

theorem All.bind {P : S → Prop} {p : Program S Res α} {f : α → Program S Res β} (hp : p.All P)
    (hf : ∀ a, (f a).All P) : (p >>= f).All P := by
  induction p with
  | pure a => exact hf a
  | unwind => trivial
  | stmt s k ih => exact ⟨hp.1, fun r => ih r (hp.2 r)⟩

theorem All.mono {P Q : S → Prop} (h : ∀ s, P s → Q s) {p : Program S Res α} (hp : p.All P) :
    p.All Q := by
  induction p with
  | pure a => trivial
  | unwind => trivial
  | stmt s k ih => exact ⟨h s hp.1, fun r => ih r (hp.2 r)⟩

theorem All.forM {P : S → Prop} {δ : Type} {f : δ → Program S Res PUnit} (hf : ∀ d, (f d).All P)
    (ds : List δ) : (ds.forM f).All P := by
  induction ds with
  | nil => trivial
  | cons d ds ih => exact (hf d).bind fun _ => ih

/-- As long as the results of its statements are allowed, the program ends in a good value. -/
def EndsIn (allowed : (s : S) → Res s → Prop) (good : α → Prop) : Program S Res α → Prop
  | .pure a => good a
  | .unwind => True
  | .stmt s k => ∀ r, allowed s r → (k r).EndsIn allowed good

variable {allowed : (s : S) → Res s → Prop}

@[simp] theorem endsIn_pure {good : α → Prop} {a : α} :
    (Program.pure a : Program S Res α).EndsIn allowed good ↔ good a := Iff.rfl

theorem endsIn_bind {good : β → Prop} {p : Program S Res α} {f : α → Program S Res β} :
    (p >>= f).EndsIn allowed good ↔ p.EndsIn allowed fun a => (f a).EndsIn allowed good := by
  induction p with
  | pure a => exact Iff.rfl
  | unwind => exact Iff.rfl
  | stmt s k ih => exact forall_congr' fun r => imp_congr_right fun _ => ih r

theorem endsIn_of_forall {good : α → Prop} (h : ∀ a, good a) (p : Program S Res α) :
    p.EndsIn allowed good := by
  induction p with
  | pure a => exact h a
  | unwind => trivial
  | stmt s k ih => exact fun r _ => ih r

theorem endsIn_bind_of_forall {good : β → Prop} {p : Program S Res α} {f : α → Program S Res β}
    (h : ∀ a, (f a).EndsIn allowed good) : (p >>= f).EndsIn allowed good :=
  endsIn_bind.mpr (endsIn_of_forall h p)

theorem EndsIn.mono {good good' : α → Prop} (hgood : ∀ a, good a → good' a) {p : Program S Res α}
    (h : p.EndsIn allowed good) : p.EndsIn allowed good' := by
  induction p with
  | pure a => exact hgood a h
  | unwind => trivial
  | stmt s k ih => exact fun r hr => ih r (h r hr)

end Program

/-- What one statement does: the row versions it writes, the log rows it appends, its result. -/
structure Effect (V A R : Type) where
  news : List V
  logs : List A
  result : R

variable {K V A S B E Err : Type} [DecidableEq K] {Res : S → Type} {key : V → K}

/-- The meaning of the statements `S` on rows `V` with primary key `key`. A statement is executed
for a transaction with data `B` and a choice `E` for what the code leaves open, on the rows it
sees; the last arguments say which rows no other transaction holds and which row versions other
transactions have written and not yet committed. -/
structure Semantics (key : V → K) (A S : Type) (Res : S → Type) (B E Err : Type) where
  exec : (s : S) → B → E → List V → (K → Bool) → Except Err (Effect V A (Res s))
  waits : S → B → E → List V → (K → Bool) → List V → Bool

namespace Program

variable {α β : Type} (sem : Semantics key A S Res B E Err) (b : B)
  (rely : Table key → (K → Bool) → E → Prop)

/-- Whatever committed tables, locks and choices its statements meet within `rely`, a run of the
program keeps `J` of the changes made and the log rows written so far, and ends in `Q`. The tables
agree with the changes recorded so far: the rows already written are held. -/
def Along (J : List (Change V) → List A → Prop) {α : Type}
    (Q : List (Change V) → List A → α → Prop) :
    Program S Res α → List (Change V) → List A → Prop
  | .pure a, cs, ls => Q cs ls a
  | .unwind, _, _ => True
  | .stmt s k, cs, ls => ∀ (t : Table key) (e : E) (free : K → Bool) (eff : Effect V A (Res s)),
      rely t free e → t.record (news cs) = cs →
      sem.exec s b e (t.putAll (news cs)).rows free = .ok eff →
      J (cs ++ (t.putAll (news cs)).record eff.news) (ls ++ eff.logs) ∧
        (k eff.result).Along J Q (cs ++ (t.putAll (news cs)).record eff.news) (ls ++ eff.logs)

variable {sem b rely} {J : List (Change V) → List A → Prop}

@[simp] theorem along_pure {Q : List (Change V) → List A → α → Prop} {a : α} {cs ls} :
    (Program.pure a : Program S Res α).Along sem b rely J Q cs ls ↔ Q cs ls a := Iff.rfl

@[simp] theorem along_unwind {Q : List (Change V) → List A → α → Prop} {cs ls} :
    (Program.unwind : Program S Res α).Along sem b rely J Q cs ls := trivial

theorem Along.imp {J' : List (Change V) → List A → Prop}
    {Q Q' : List (Change V) → List A → α → Prop}
    (hJ : ∀ cs ls, J cs ls → J' cs ls) (h : ∀ cs ls a, Q cs ls a → Q' cs ls a)
    {p : Program S Res α} {cs ls} (hp : p.Along sem b rely J Q cs ls) :
    p.Along sem b rely J' Q' cs ls := by
  induction p generalizing cs ls with
  | pure a => exact h _ _ _ hp
  | unwind => trivial
  | stmt s k ih =>
    intro t e free eff hrely ht he
    obtain ⟨hj, hk⟩ := hp t e free eff hrely ht he
    exact ⟨hJ _ _ hj, ih _ hk⟩

theorem Along.mono {Q Q' : List (Change V) → List A → α → Prop}
    (h : ∀ cs ls a, Q cs ls a → Q' cs ls a) {p : Program S Res α} {cs ls}
    (hp : p.Along sem b rely J Q cs ls) : p.Along sem b rely J Q' cs ls :=
  hp.imp (fun _ _ hj => hj) h

/-- The invariant holds at the end as well. -/
theorem Along.invariant {Q : List (Change V) → List A → α → Prop} {p : Program S Res α} {cs ls}
    (hJ : J cs ls) (hp : p.Along sem b rely J Q cs ls) :
    p.Along sem b rely J (fun cs ls a => J cs ls ∧ Q cs ls a) cs ls := by
  induction p generalizing cs ls with
  | pure a => exact ⟨hJ, hp⟩
  | unwind => trivial
  | stmt s k ih =>
    intro t e free eff hrely ht he
    obtain ⟨hj, hk⟩ := hp t e free eff hrely ht he
    exact ⟨hj, ih _ hj hk⟩

theorem along_of_forall {Q : List (Change V) → List A → α → Prop} (hJ : ∀ cs ls, J cs ls)
    (hQ : ∀ cs ls a, Q cs ls a) (p : Program S Res α) {cs ls} :
    p.Along sem b rely J Q cs ls := by
  induction p generalizing cs ls with
  | pure a => exact hQ _ _ _
  | unwind => trivial
  | stmt s k ih => exact fun _ _ _ eff _ _ _ => ⟨hJ _ _, ih eff.result⟩

theorem along_bind {Q : List (Change V) → List A → β → Prop} {p : Program S Res α}
    {f : α → Program S Res β} {cs ls} :
    (p >>= f).Along sem b rely J Q cs ls ↔
      p.Along sem b rely J (fun cs ls a => (f a).Along sem b rely J Q cs ls) cs ls := by
  induction p generalizing cs ls with
  | pure a => exact Iff.rfl
  | unwind => exact Iff.rfl
  | stmt s k ih =>
    constructor
    · intro h t e free eff hrely ht he
      obtain ⟨hJ, hk⟩ := h t e free eff hrely ht he
      exact ⟨hJ, (ih _).mp hk⟩
    · intro h t e free eff hrely ht he
      obtain ⟨hJ, hk⟩ := h t e free eff hrely ht he
      exact ⟨hJ, (ih _).mpr hk⟩

/-- What every statement of a program does to single rows, the program does. -/
theorem All.along {P : S → Prop} {X : Change V → Prop}
    (hq : ∀ q, P q → ∀ (t : Table key) (e : E) (free : K → Bool) (eff : Effect V A (Res q)),
      sem.exec q b e t.rows free = .ok eff → ∀ c ∈ t.record eff.news, X c)
    {p : Program S Res α} (hp : p.All P) {cs ls} (hcs : ∀ c ∈ cs, X c) :
    p.Along sem b rely (fun cs _ => ∀ c ∈ cs, X c) (fun cs _ _ => ∀ c ∈ cs, X c) cs ls := by
  induction p generalizing cs ls with
  | pure a => exact hcs
  | unwind => trivial
  | stmt q k ih =>
    intro t e free eff _ _ he
    have hX : ∀ c ∈ cs ++ (t.putAll (news cs)).record eff.news, X c := by
      intro c hc
      rcases List.mem_append.mp hc with hc | hc
      · exact hcs c hc
      · exact hq q hp.1 _ e free eff he c hc
    exact ⟨hX, ih _ (hp.2 _) hX⟩

end Program

end RowStore
